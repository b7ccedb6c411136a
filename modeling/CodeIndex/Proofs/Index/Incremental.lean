import CodeIndex.Proofs.Embedding.Answers
import CodeIndex.Proofs.Index.Completeness
import CodeIndex.Proofs.Index.Idempotence
import CodeIndex.Proofs.Index.Requests

/-!
# Incremental runs

A run that starts from whatever history left behind ends with the snapshot that it would have made
from nothing.  Its files get their rows in different ways, but each file has the units of its
content and each text has one vector, so nothing of the history is left to see.
-/

namespace CodeIndex

open EmbeddingBatch Snapshot StoreSession

/-! ## §1 What runs have in common -/

/-- What stays the same from run to run: the grammars and, for each model, how texts are cut and
what vectors their chunks have. -/
structure Setup where
  grammar : Language → String → SyntaxTree
  tokenize : String → String → Tokens
  maxTokens : String → Nat
  vector : String → String → Embedding

namespace ProjectRun

/-- The run works under a setup: it may ask any provider whose vectors are those of its model. -/
structure Uses (r : ProjectRun) (setup : Setup) : Prop where
  grammar : r.indexer.grammar = setup.grammar
  embedder : ∃ (provider : Provider r.σ) (settings : EmbedderSettings),
    r.indexer.embedder = .ofProvider provider (setup.tokenize provider.modelId) settings ∧
      settings.maxTokens = setup.maxTokens provider.modelId ∧
      ∀ text state v, (provider.answer text state).1 = .ok v →
        v = setup.vector provider.modelId text

/-- The run finds this content under this path. -/
def Finds (r : ProjectRun) (p : String) (content : FileContent) : Prop :=
  (∃ f ∈ r.files, f.filepath = p) ∧ r.contentAt? p = some content

end ProjectRun

/-- Among the files of a history, one checksum means one content, and one content one language. -/
structure Unambiguous (events : List SessionEvent) : Prop where
  content : ∀ r r', .run r ∈ events → .run r' ∈ events → ∀ p p' content content',
    r.Finds p content → r'.Finds p' content' → content.checksum = content'.checksum →
      content.bytes = content'.bytes
  language : ∀ r r', .run r ∈ events → .run r' ∈ events → ∀ p p' content content',
    r.Finds p content → r'.Finds p' content' → content.bytes = content'.bytes →
      r.languageAt? p = r'.languageAt? p'

/-! ## §2 One vector per text -/

/-- The vector of a unit is the one that the model of the snapshot has for its text. -/
theorem VectorFrom.determined {setup : Setup} {events : List SessionEvent} {model : String}
    {u : CodeUnit} (huses : ∀ r, .run r ∈ events → r.Uses setup) (h : VectorFrom events model u) :
    ∃ v, u.embedding = some v ∧ determined (setup.vector model)
      (jobOf (setup.tokenize model) (setup.maxTokens model) u.sourceText) = .ok v := by
  obtain ⟨v, hv, before, r, rest, rfl, rfl, hanswer⟩ := h
  -- each run of the history uses the one setup, the run of the vector too
  obtain ⟨provider, settings, hembedder, htokens, hvector⟩ := (huses r (by simp)).embedder
  have hmodel : r.modelId = provider.modelId := by
    unfold ProjectRun.modelId Indexer.modelId
    rw [hembedder]
    rfl
  refine ⟨v, hv, ?_⟩
  unfold ProjectRun.answers at hanswer
  rw [hembedder] at hanswer
  rw [hmodel, ← htokens]
  exact Embedder.determined_of_embedTexts provider _ settings hvector hanswer

/-- Units of one text have one vector in all snapshots of one model. -/
theorem embedding_eq_of_sourceText_eq {setup : Setup} {events events' : List SessionEvent}
    {model : String} {u u' : CodeUnit} (huses : ∀ r, .run r ∈ events → r.Uses setup)
    (huses' : ∀ r, .run r ∈ events' → r.Uses setup) (h : VectorFrom events model u)
    (h' : VectorFrom events' model u') (htext : u.sourceText = u'.sourceText) :
    u.embedding = u'.embedding := by
  obtain ⟨v, hv, hdetermined⟩ := h.determined huses
  obtain ⟨v', hv', hdetermined'⟩ := h'.determined huses'
  rw [htext, hdetermined'] at hdetermined
  rw [hv, hv', Except.ok.inj hdetermined]

/-! ## §3 One decomposition per content -/

/-- Whatever run decomposed a content, this run decomposes its file of that content likewise. -/
theorem decomposeFile_of_wholeIn {setup : Setup} {events : List SessionEvent} {r : ProjectRun}
    {f : FileRecord} {units : List CodeUnit} {content content' : FileContent}
    (hruns : ∀ r, .run r ∈ events → r.Orderly ∧ r.Truthful ∧ r.Uses setup)
    (hunambiguous : Unambiguous events) (hr : .run r ∈ events) (hf : f ∈ r.files)
    (hcontent : r.contentAt? f.filepath = some content)
    (h : WholeIn events f.checksum content' units) :
    r.indexer.decomposeFile r.top r.root f = .ok { f with units := units } := by
  obtain ⟨r', hr', p, hdecomposes⟩ := h
  obtain ⟨_, htruthful, huses⟩ := hruns r hr
  obtain ⟨_, htruthful', huses'⟩ := hruns r' hr'
  have hchecksum : content.checksum = f.checksum := htruthful f hf content hcontent
  have hchecksum' : content'.checksum = f.checksum := hdecomposes.checksum_eq htruthful'
  obtain ⟨⟨g, hg, hgkey⟩, hcontent', text, language, htext, hlanguage, hunits⟩ := hdecomposes
  have hfinds : r.Finds f.filepath content := ⟨⟨f, hf, rfl⟩, hcontent⟩
  have hfinds' : r'.Finds p content' := ⟨⟨g, hg, congrArg Prod.fst hgkey⟩, hcontent'⟩
  -- the checksums agree, so the contents do, and with them the languages
  have hbytes : content.bytes = content'.bytes :=
    hunambiguous.content r r' hr hr' _ _ _ _ hfinds hfinds' (hchecksum.trans hchecksum'.symm)
  have hlanguage' : r.languageAt? f.filepath = some language :=
    (hunambiguous.language r r' hr hr' _ _ _ _ hfinds hfinds' hbytes).trans hlanguage
  have htext' : content.text = .ok text := by
    unfold FileContent.text at htext ⊢
    rw [hbytes]
    exact htext
  have hparse : r.unitsOf language text = .ok units := by
    unfold ProjectRun.unitsOf at hunits ⊢
    rw [huses.grammar, ← huses'.grammar]
    exact hunits
  exact ProjectRun.decomposeFile_eq_ok_iff.2
    ⟨content, text, language, units, hcontent, htext', hlanguage', hparse, rfl⟩

/-! ## §4 After a clean run -/

namespace ProjectRun

variable {r r' : ProjectRun} {f : FileRecord}

/-- The run can make rows of a file: the file has content, and units in it. -/
def Yields (r : ProjectRun) (f : FileRecord) : Prop :=
  f.checksum ≠ Checksum.empty ∧ ∃ units, units ≠ [] ∧
    r.indexer.decomposeFile r.top r.root f = .ok { f with units := units }

private theorem SameProject.yields_iff (h : r.SameProject r') (f : FileRecord) :
    r.Yields f ↔ r'.Yields f := by
  unfold Yields
  rw [h.decomposeFile]

/-- A file that is decomposed can be read. -/
theorem Yields.exists_content (h : r.Yields f) :
    ∃ content, r.contentAt? f.filepath = some content := by
  obtain ⟨_, units, _, hok⟩ := h
  obtain ⟨content, _, _, _, hcontent, _⟩ := decomposeFile_eq_ok_iff.1 hok
  exact ⟨content, hcontent⟩

end ProjectRun

/-- Where no unit is lost, just those files have rows that memory knows or that yield units. -/
theorem FileSource.ne_nil_iff {r : ProjectRun} {memory : Snapshot} {f : FileRecord}
    {rows : List SnapshotRow} (h : FileSource r memory f rows false)
    (hcontent : ∀ row ∈ memory.rows, row.checksum ≠ Checksum.empty)
    (hembedded : ∀ row ∈ memory.rows, row.unit.embedding.isSome = true) :
    rows ≠ [] ↔ r.Knows memory f ∨ r.Yields f := by
  generalize hlost : false = lost at h
  cases h with
  | carried hcarry =>
    obtain ⟨row, hrow, hkey⟩ :=
      exists_row_of_checksumOf? (UpdatePlan.fateOf_eq_carry_iff.1 hcarry).2.1
    have hmem : row ∈ rowsOf memory.rows f.key := mem_rowsOf.2 ⟨hrow, hkey⟩
    exact iff_of_true (List.ne_nil_of_mem hmem) (.inl (ProjectRun.knows_of_carry hcarry))
  | skipped _ hempty =>
    refine iff_of_false (fun hne => hne rfl) ?_
    rintro (⟨_, row, hrow, hchecksum, _⟩ | hyields)
    · exact hcontent row hrow (hchecksum.trans hempty)
    · exact hyields.1 hempty
  | relocated _ hreuse hunits =>
    refine iff_of_true (fun hnil => ?_) (.inl (ProjectRun.knows_of_embeddedUnits? hreuse hunits))
    exact embeddedUnits?_ne_nil hunits (rowsOfRecord_eq_nil_iff.1 hnil)
  | unreadable hpending herror =>
    refine iff_of_false (fun hne => hne rfl) ?_
    rintro (hknows | ⟨_, units, _, hok⟩)
    · exact ((ProjectRun.mem_pending_iff hembedded).1 hpending).2.2 hknows
    · rw [herror] at hok
      cases hok
  | @embedded units replies hpending hunits hlength _ =>
    have hnone : failuresOf { f with units := units } replies = [] := by
      simpa using hlost
    have hcount := settledRecord_length (r := { f with units := units }) hlength
    rw [hnone, List.length_nil, Nat.add_zero] at hcount
    have hprocess := UpdatePlan.fateOf_eq_process_iff.1 (Workload.mem_pending.1 hpending).2.1
    -- a file without failures has a row for every unit
    rw [ne_eq, rowsOfRecord_eq_nil_iff, ← List.length_eq_zero_iff, hcount,
      List.length_eq_zero_iff]
    constructor
    · intro hne
      exact .inr ⟨hprocess.2, units, hne, hunits⟩
    · rintro (hknows | ⟨_, units', hne, hok⟩) hnil
      · exact ((ProjectRun.mem_pending_iff hembedded).1 hpending).2.2 hknows
      · rw [hunits] at hok
        have hsame : units = units' := by simpa using hok
        exact hne (hsame ▸ hnil)

/-- After a clean run just those files have rows that memory knew or that yield units. -/
theorem ProjectRun.Clean.exists_row_iff {events : List SessionEvent} {r : ProjectRun}
    (h : r.Clean (after events)) (hruns : ∀ r, .run r ∈ events → r.Orderly)
    (horderly : r.Orderly) (key : FileKey) :
    (∃ row ∈ (r.outcome (after events)).session.memory.rows, row.key = key) ↔
      ∃ f ∈ r.files, f.key = key ∧ (r.Knows (after events).memory f ∨ r.Yields f) := by
  have hmemory : (after events).memory ∈ (after events).snapshots := List.mem_cons_self
  -- file by file: rows come from the snapshot before or from the text
  have hsome : ∀ f ∈ r.files, (rowsAt (r.proposed (after events).memory).rows f.filepath ≠ [] ↔
      r.Knows (after events).memory f ∨ r.Yields f) := by
    intro f hf
    have hsource := horderly.fileSource hf (after events).memory
    rw [h.isIncomplete_eq_false] at hsource
    exact hsource.ne_nil_iff (checksum_ne_empty_of_mem_snapshots hruns hmemory)
      fun row hrow => embedding_isSome_of_mem_snapshots hmemory hrow
  rw [h.finished.exists_row_iff]
  constructor
  · rintro ⟨row, hrow, rfl⟩
    obtain ⟨f, hf, hkey, _⟩ := horderly.exists_file hrow
    refine ⟨f, hf, hkey.symm, (hsome f hf).1 ?_⟩
    exact List.ne_nil_of_mem (mem_rowsAt.2 ⟨hrow, (Prod.mk.inj hkey).1⟩)
  · rintro ⟨f, hf, rfl, hf'⟩
    obtain ⟨row, hmem⟩ := List.exists_mem_of_ne_nil _ ((hsome f hf).2 hf')
    obtain ⟨hrow, hpath⟩ := mem_rowsAt.1 hmem
    obtain ⟨g, hg, hkey, _⟩ := horderly.exists_file hrow
    obtain rfl := horderly.eq_of_filepath_eq hf hg (hpath.symm.trans (Prod.mk.inj hkey).1)
    exact ⟨row, hrow, hkey⟩

/-! ## §5 From scratch -/

/-- A run after a history and a run of the same project from nothing, both clean. -/
structure Comparison (setup : Setup) (events : List SessionEvent) (call scratch : ProjectRun) :
    Prop where
  runs : ∀ r, SessionEvent.run r ∈ events ++ [.run call] → r.Orderly ∧ r.Truthful ∧ r.Uses setup
  unambiguous : Unambiguous (events ++ [.run call])
  project : scratch.SameProject call
  orderly : scratch.Orderly
  uses : scratch.Uses setup
  clean : call.Clean (after events)
  cleanScratch : scratch.Clean (after [])

namespace Comparison

variable {setup : Setup} {events : List SessionEvent} {call scratch : ProjectRun}

private theorem run_mem (events : List SessionEvent) (r : ProjectRun) :
    SessionEvent.run r ∈ events ++ [.run r] :=
  List.mem_append_right _ List.mem_cons_self

variable (h : Comparison setup events call scratch)

include h

private theorem scratchRuns : ∀ r, SessionEvent.run r ∈ [] ++ [.run scratch] →
    r.Orderly ∧ r.Truthful ∧ r.Uses setup := by
  intro r hr
  obtain rfl := SessionEvent.run.inj (List.mem_singleton.1 hr)
  exact ⟨h.orderly, h.project.truthful (h.runs call (run_mem events call)).2.1, h.uses⟩

private theorem accounted :
    (call.outcome (after events)).session.memory.Accounted (events ++ [.run call]) :=
  accounted_of_mem_snapshots (fun r hr => (h.runs r hr).1)
    (outcome_memory_mem_snapshots events call)

private theorem accountedScratch :
    (scratch.outcome (after [])).session.memory.Accounted ([] ++ [.run scratch]) :=
  accounted_of_mem_snapshots (fun r hr => (h.scratchRuns r hr).1)
    (outcome_memory_mem_snapshots [] scratch)

/-- What any of the runs decomposed, the call decomposes in the same way, if it can read it. -/
theorem decomposeFile_of_wholeIn {f : FileRecord} (hf : f ∈ call.files) {content : FileContent}
    (hcontent : call.contentAt? f.filepath = some content) {content' : FileContent}
    {units : List CodeUnit}
    (hwhole : WholeIn (events ++ [.run call]) f.checksum content' units ∨
      WholeIn ([] ++ [.run scratch]) f.checksum content' units) :
    call.indexer.decomposeFile call.top call.root f = .ok { f with units := units } := by
  -- the run from scratch reads the same project, so its pieces are those of the call
  have hcall : WholeIn (events ++ [.run call]) f.checksum content' units := by
    rcases hwhole with hwhole | ⟨r, hr, p, hdecomposes⟩
    · exact hwhole
    · obtain rfl := SessionEvent.run.inj (List.mem_singleton.1 hr)
      exact ⟨call, run_mem events call, p, h.project.decomposes hdecomposes⟩
  exact CodeIndex.decomposeFile_of_wholeIn h.runs h.unambiguous (run_mem events call) hf hcontent
    hcall

/-! ### Files with rows -/

private theorem exists_row_call_iff (key : FileKey) :
    (∃ row ∈ (call.outcome (after events)).session.memory.rows, row.key = key) ↔
      ∃ f ∈ call.files, f.key = key ∧ (call.Knows (after events).memory f ∨ call.Yields f) :=
  h.clean.exists_row_iff (fun r hr => (h.runs r (List.mem_append_left _ hr)).1)
    (h.runs call (run_mem events call)).1 key

private theorem exists_row_scratch_iff (key : FileKey) :
    (∃ row ∈ (scratch.outcome (after [])).session.memory.rows, row.key = key) ↔
      ∃ f ∈ call.files, f.key = key ∧ call.Yields f := by
  have hrow := h.cleanScratch.exists_row_iff (fun _ hr => absurd hr List.not_mem_nil) h.orderly key
  have hknows : ∀ f, ¬ scratch.Knows (after []).memory f := by
    rintro f ⟨_, row, hmem, _⟩
    exact absurd hmem List.not_mem_nil
  rw [hrow, h.project.files]
  refine exists_congr fun f => and_congr_right fun _ => and_congr_right fun _ => ?_
  rw [h.project.yields_iff, or_iff_right (hknows f)]

/-- A file that the call can read yields units if memory knew it. -/
theorem yields_of_knows {f : FileRecord} (hf : f ∈ call.files) {content : FileContent}
    (hcontent : call.contentAt? f.filepath = some content)
    (hknows : call.Knows (after events).memory f) : call.Yields f := by
  have hmemory : (after events).memory ∈ (after events).snapshots := List.mem_cons_self
  have hevents : ∀ r, .run r ∈ events → r.Orderly := fun r hr =>
    (h.runs r (List.mem_append_left _ hr)).1
  obtain ⟨_, row, hrow, hchecksum, hcomplete⟩ := hknows
  -- a known version was whole when it was recorded, and the text is still the same
  obtain ⟨content', hwhole⟩ :=
    (accounted_of_mem_snapshots hevents hmemory).whole row hrow hcomplete
  rw [hchecksum] at hwhole
  refine ⟨?_, (after events).memory.bareUnits row.key, ?_, ?_⟩
  · rw [← hchecksum]
    exact checksum_ne_empty_of_mem_snapshots hevents hmemory row hrow
  · exact List.ne_nil_of_mem (List.mem_map_of_mem (mem_rowsOf.2 ⟨hrow, rfl⟩))
  · exact h.decomposeFile_of_wholeIn hf hcontent (.inl (hwhole.later _))

/-- Both snapshots have rows of the same files just if memory knew no file that cannot be read. -/
theorem exists_row_iff_iff :
    (∀ key, (∃ row ∈ (call.outcome (after events)).session.memory.rows, row.key = key) ↔
        ∃ row ∈ (scratch.outcome (after [])).session.memory.rows, row.key = key) ↔
      ∀ f ∈ call.files, call.contentAt? f.filepath = none →
        ¬ call.Knows (after events).memory f := by
  obtain ⟨horderly, _, _⟩ := h.runs call (run_mem events call)
  constructor
  · -- the call has rows of a file that it knows, and the run from nothing cannot read it
    intro hsame f hf hnone hknows
    obtain ⟨row, hrow, hkey⟩ := (h.exists_row_call_iff f.key).2 ⟨f, hf, rfl, .inl hknows⟩
    obtain ⟨g, hg, hgkey, hyields⟩ :=
      (h.exists_row_scratch_iff f.key).1 ((hsame f.key).1 ⟨row, hrow, hkey⟩)
    obtain rfl := horderly.eq_of_filepath_eq hg hf (Prod.mk.inj hgkey).1
    obtain ⟨content, hcontent⟩ := hyields.exists_content
    rw [hnone] at hcontent
    cases hcontent
  · intro hunknown key
    rw [h.exists_row_call_iff, h.exists_row_scratch_iff]
    -- what memory knows of a file that can be read is what the file yields anyway
    refine exists_congr fun f => and_congr_right fun hf => and_congr_right fun _ => ?_
    refine ⟨fun hor => ?_, .inr⟩
    rcases hor with hknows | hyields
    · cases hcontent : call.contentAt? f.filepath with
      | none => exact absurd hknows (hunknown f hf hcontent)
      | some content => exact h.yields_of_knows hf hcontent hknows
    · exact hyields

/-! ### Equal snapshots -/

variable (hsame : ∀ key,
  (∃ row ∈ (call.outcome (after events)).session.memory.rows, row.key = key) ↔
    ∃ row ∈ (scratch.outcome (after [])).session.memory.rows, row.key = key)

include hsame

/-- Both snapshots have the same units of each version, vectors aside. -/
theorem bareUnits_eq {row : SnapshotRow}
    (hrow : row ∈ (call.outcome (after events)).session.memory.rows) :
    (call.outcome (after events)).session.memory.bareUnits row.key =
      (scratch.outcome (after [])).session.memory.bareUnits row.key := by
  obtain ⟨row', hrow', hkey⟩ := (hsame row.key).1 ⟨row, hrow, rfl⟩
  obtain ⟨f, hf, hfkey, hyields⟩ := (h.exists_row_scratch_iff row.key).1 ⟨row', hrow', hkey⟩
  obtain ⟨content, hcontent⟩ := hyields.exists_content
  have hcomplete : row.key ∉ (call.outcome (after events)).session.memory.incomplete := by
    rw [h.clean.incomplete_eq_nil]
    exact List.not_mem_nil
  have hcomplete' : row'.key ∉ (scratch.outcome (after [])).session.memory.incomplete := by
    rw [h.cleanScratch.incomplete_eq_nil]
    exact List.not_mem_nil
  obtain ⟨content₁, hwhole⟩ := h.accounted.whole row hrow hcomplete
  obtain ⟨content₂, hwhole'⟩ := h.accountedScratch.whole row' hrow' hcomplete'
  -- both are the units of one file of the call
  have hunits := h.decomposeFile_of_wholeIn hf hcontent (.inl ((Prod.mk.inj hfkey).2 ▸ hwhole))
  have hunits' := h.decomposeFile_of_wholeIn hf hcontent
    (.inr ((Prod.mk.inj (hfkey.trans hkey.symm)).2 ▸ hwhole'))
  rw [hunits, hkey] at hunits'
  simpa using hunits'

/-- Both snapshots name the same model, if they have rows. -/
theorem model_eq : (call.outcome (after events)).session.memory.model =
    (scratch.outcome (after [])).session.memory.model := by
  -- the model is recorded exactly when there are rows
  have hnil : (call.outcome (after events)).session.memory.rows = [] ↔
      (scratch.outcome (after [])).session.memory.rows = [] := by
    simp only [List.eq_nil_iff_forall_not_mem]
    constructor
    · intro hnone row hrow
      obtain ⟨row', hrow', _⟩ := (hsame row.key).2 ⟨row, hrow, rfl⟩
      exact hnone row' hrow'
    · intro hnone row hrow
      obtain ⟨row', hrow', _⟩ := (hsame row.key).1 ⟨row, hrow, rfl⟩
      exact hnone row' hrow'
  rw [h.clean.finished.model_eq, h.cleanScratch.finished.model_eq, h.project.modelId]
  simp only [hnil]

/-- Units of one text have one vector in both snapshots. -/
theorem embedding_eq {row row' : SnapshotRow}
    (hrow : row ∈ (call.outcome (after events)).session.memory.rows)
    (hrow' : row' ∈ (scratch.outcome (after [])).session.memory.rows)
    (htext : row.unit.sourceText = row'.unit.sourceText) :
    row.unit.embedding = row'.unit.embedding := by
  obtain ⟨model, hmodel, hunits⟩ :=
    oneModel_of_mem_snapshots (outcome_memory_mem_snapshots events call) (List.ne_nil_of_mem hrow)
  obtain ⟨model', hmodel', hunits'⟩ :=
    oneModel_of_mem_snapshots (outcome_memory_mem_snapshots [] scratch)
      (List.ne_nil_of_mem hrow')
  -- both vectors are of one model, and the setup has one vector for the text
  have hmodels : model = model' := by
    have heq := h.model_eq hsame
    rw [hmodel, hmodel'] at heq
    exact Option.some.inj heq
  exact embedding_eq_of_sourceText_eq (fun r hr => (h.runs r hr).2.2)
    (fun r hr => (h.scratchRuns r hr).2.2) (hunits row hrow) (hmodels ▸ hunits' row' hrow') htext

private theorem rows_eq : (call.outcome (after events)).session.memory.rows =
    (scratch.outcome (after [])).session.memory.rows := by
  -- both are sorted with one version of each path, so it is enough to compare versions
  refine eq_of_rowsOf_eq (sorted_of_mem_snapshots (outcome_memory_mem_snapshots events call))
    (sorted_of_mem_snapshots (outcome_memory_mem_snapshots [] scratch)) h.accounted.one
    h.accountedScratch.one hsame fun row hrow => ?_
  have hkey : ∀ rows : List SnapshotRow, ∀ r ∈ rowsOf rows row.key, r.key = row.key :=
    fun _ _ hmem => (mem_rowsOf.1 hmem).2
  apply eq_of_map_erase_eq (hkey _) (hkey _) (h.bareUnits_eq hsame hrow)
  intro r hr r' hr'
  exact h.embedding_eq hsame (mem_rowsOf.1 hr).1 (mem_rowsOf.1 hr').1

/-- Equal rows, equal models and no marks make equal snapshots. -/
theorem memory_eq : (call.outcome (after events)).session.memory =
    (scratch.outcome (after [])).session.memory := by
  have hrows := h.rows_eq hsame
  have hmodel := h.model_eq hsame
  have hincomplete : (call.outcome (after events)).session.memory.incomplete =
      (scratch.outcome (after [])).session.memory.incomplete := by
    rw [h.clean.incomplete_eq_nil, h.cleanScratch.incomplete_eq_nil]
  exact Snapshot.ext_fields hrows hmodel hincomplete

end Comparison

/-- A run that ends well leaves the snapshot that it would have made from nothing, whatever history
it starts from: in rows and their order, in units and vectors, and in the model, with no file marked
incomplete.  There is one exception, and it is exact.  A file that the run finds and then cannot
read, because its recorded name does not lead to it, has no rows when nothing is known; it has rows
if memory knows its content. -/
theorem incremental_eq_scratch_iff (setup : Setup) (events : List SessionEvent)
    (call scratch : ProjectRun)
    (hruns : ∀ r, .run r ∈ events ++ [.run call] → r.Orderly ∧ r.Truthful ∧ r.Uses setup)
    (hunambiguous : Unambiguous (events ++ [.run call]))
    (hproject : scratch.SameProject call) (horderly : scratch.Orderly)
    (huses : scratch.Uses setup) (hclean : call.Clean (after events))
    (hclean' : scratch.Clean fresh) :
    (call.outcome (after events)).session.memory.incomplete = [] ∧
      ((call.outcome (after events)).session.memory = (scratch.outcome fresh).session.memory ↔
        ∀ f ∈ call.files, call.contentAt? f.filepath = none →
          ¬ call.Knows (after events).memory f) := by
  have h : Comparison setup events call scratch :=
    ⟨hruns, hunambiguous, hproject, horderly, huses, hclean, hclean'⟩
  refine ⟨h.clean.incomplete_eq_nil, ?_⟩
  rw [← h.exists_row_iff_iff]
  constructor
  · intro hmemory key
    rw [hmemory]
    rfl
  · exact h.memory_eq

/-- What a run over a folder of files finds there. -/
theorem ProjectRun.IsFlat.finds_iff {r : ProjectRun} {files : List (String × FileContent)}
    (h : r.IsFlat files) {p : String} {found : FileContent} :
    r.Finds p found ↔ (p, found) ∈ files := by
  unfold ProjectRun.Finds
  rw [h.files_eq]
  constructor
  · rintro ⟨⟨g, hg, rfl⟩, hfound⟩
    obtain ⟨f, hf, rfl⟩ := List.mem_map.1 hg
    rw [show (FileRecord.bare f.1 f.2.checksum).filepath = f.1 from rfl,
      h.contentAt?_eq hf] at hfound
    rw [← Option.some.inj hfound]
    exact hf
  · intro hf
    exact ⟨⟨_, List.mem_map_of_mem hf, rfl⟩, h.contentAt?_eq (f := (p, found)) hf⟩

namespace Sample

/-- The setup of the sample projects. -/
def setup : Setup where
  grammar := grammar
  tokenize := fun _ text => [text.toUTF8]
  maxTokens := fun _ => 8191
  vector := fun _ _ => [Single.one]

theorem uses : run.Uses setup := by
  refine ⟨rfl, provider, {}, rfl, rfl, fun _ _ v hv => ?_⟩
  exact (Except.ok.inj hv).symm

theorem pair_uses : pair.Uses setup := by
  refine ⟨rfl, provider, {}, rfl, rfl, fun _ _ v hv => ?_⟩
  exact (Except.ok.inj hv).symm

/-- Both projects have the same content under the name of the first file. -/
theorem mem_of_finds {r : ProjectRun} (hr : .run r ∈ [SessionEvent.run run, .run pair]) {p : String}
    {found : FileContent} (h : r.Finds p found) :
    (p, found) ∈ [("a.py", content), ("b.py", otherContent)] := by
  rcases eq_of_mem_history hr with rfl | rfl
  · exact List.mem_cons.2 (.inl (List.mem_singleton.1 (run_flat.finds_iff.1 h)))
  · exact pair_flat.finds_iff.1 h

/-- Different files have different contents, and all are of one language. -/
theorem unambiguous : Unambiguous [.run run, .run pair] := by
  constructor
  · intro r r' hr hr' p p' found found' h h' hchecksum
    have hmem := mem_of_finds hr h
    have hmem' := mem_of_finds hr' h'
    rw [List.mem_pair, Prod.mk.injEq, Prod.mk.injEq] at hmem hmem'
    rcases hmem with ⟨rfl, rfl⟩ | ⟨rfl, rfl⟩ <;> rcases hmem' with ⟨rfl, rfl⟩ | ⟨rfl, rfl⟩
    · rfl
    · exact absurd hchecksum checksum_ne_otherChecksum
    · exact absurd hchecksum.symm checksum_ne_otherChecksum
    · rfl
  · -- both names end in the same extension
    intro r r' hr hr' p p' found found' h h' _
    have hlanguage : ∀ r p found, .run r ∈ [SessionEvent.run run, .run pair] → r.Finds p found →
        r.languageAt? p = some .python := by
      intro r p found hr h
      have hname : p ∈ ["a.py", "b.py"] := List.mem_map_of_mem (f := Prod.fst) (mem_of_finds hr h)
      rcases eq_of_mem_history hr with rfl | rfl
      · exact (names_eq p hname).2.2
      · exact (names_eq p hname).2.2
    rw [hlanguage r p found hr h, hlanguage r' p' found' hr' h']

end Sample

/-- Two files indexed after one of them are indexed as in a new session. -/
theorem incremental_eq_scratch_iff_sample :
    (Sample.pair.outcome (after [.run Sample.run])).session.memory.rows =
        [Sample.row, Sample.otherRow] ∧
      (Sample.pair.outcome (after [.run Sample.run])).session.memory =
        (Sample.pair.outcome fresh).session.memory := by
  have hruns : ∀ r, .run r ∈ [SessionEvent.run Sample.run] ++ [.run Sample.pair] →
      r.Orderly ∧ r.Truthful ∧ r.Uses Sample.setup := by
    intro r hr
    refine ⟨Sample.history_orderly hr, Sample.history_truthful hr, ?_⟩
    rcases Sample.eq_of_mem_history hr with rfl | rfl
    · exact Sample.uses
    · exact Sample.pair_uses
  obtain ⟨_, hiff⟩ := incremental_eq_scratch_iff Sample.setup [.run Sample.run] Sample.pair
    Sample.pair hruns Sample.unambiguous ⟨rfl, rfl, rfl, rfl, rfl⟩ Sample.pair_orderly
    Sample.pair_uses Sample.pair_clean Sample.pair_clean_fresh
  exact ⟨congrArg Snapshot.rows Sample.pair_memory_eq,
    hiff.2 fun _ hf hnone => absurd hnone (Sample.pair_flat.contentAt?_ne_none hf)⟩

end CodeIndex
