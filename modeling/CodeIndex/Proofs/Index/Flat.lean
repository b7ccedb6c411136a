import CodeIndex.Proofs.Decomposition.Coverage
import CodeIndex.Proofs.Embedding.Constant
import CodeIndex.Proofs.Entries
import CodeIndex.Proofs.FileTree
import CodeIndex.Proofs.Index.Sources

/-!
# Projects of one folder

The simplest project is a folder that holds source files and nothing else: no folders, no links and
no ignore files.  A run without patterns of its own finds all of them, in the order of their names,
reads each as it was found, and comes to its end if nothing interferes.  Two such projects, of one
file and of two, serve as samples.
-/

namespace CodeIndex

/-! ## §1 Files of one folder -/

/-- What a folder of these files holds. -/
def FileTree.ofFiles (files : List (String × FileContent)) : List (RawName × FileTree) :=
  files.map fun f => (Text.octets f.1, .file f.2)

/-- Files in the order of their names, each with the name of a source file. -/
structure SourceFiles (files : List (String × FileContent)) : Prop where
  sorted : files.Pairwise fun f g => f.1 ≤ g.1
  distinct : (files.map Prod.fst).Nodup
  names : ∀ f ∈ files, FilePath.IsEntryName (Text.octets f.1)
  languages : ∀ f ∈ files, (Language.ofFileName? (Text.octets f.1)).isSome = true
  /-- None of them is an ignore file. -/
  unruled : ∀ name ∈ IgnoreRules.fileNames, name ∉ files.map Prod.fst

variable {files : List (String × FileContent)}

/-- A name is looked up among octets as it is among texts. -/
theorem FileTree.lookup_ofFiles (files : List (String × FileContent)) (name : String) :
    (ofFiles files).lookup (Text.octets name) = (files.lookup name).map .file := by
  induction files with
  | nil => rfl
  | cons f files ih =>
    have hsame : (Text.octets name == Text.octets f.1) = (name == f.1) := by
      rw [Bool.eq_iff_iff, beq_iff_eq, beq_iff_eq, Text.octets_injective.eq_iff]
    unfold ofFiles at ih ⊢
    rw [List.map_cons, List.lookup_cons, List.lookup_cons, hsame, ih]
    cases name == f.1 <;> rfl

namespace Scan

/-- Without rules every file of the folder is listed. -/
theorem files_ofFiles (checksum : FileContent → String)
    (hlanguages : ∀ f ∈ files, (Language.ofFileName? (Text.octets f.1)).isSome = true) :
    Scan.files (IgnoreRules.isIgnored []) checksum [] [] (FileTree.ofFiles files) =
      files.map fun f => .bare f.1 (checksum f.2) := by
  induction files with
  | nil => rfl
  | cons f files ih =>
    obtain ⟨hlanguage, hrest⟩ := List.forall_mem_cons.1 hlanguages
    -- the name has an extension that is read, so the entry is listed under its name alone
    have hknown : (Language.ofFileName? (Text.octets f.1)).isNone = false := by
      rw [← Option.not_isSome, hlanguage]
      rfl
    have hpath : FilePath.joinNames ([] ++ [Text.octets f.1]) = f.1 := by
      simp [FilePath.joinNames]
    unfold FileTree.ofFiles at ih ⊢
    rw [List.map_cons, Scan.files, entryFiles, hknown, hpath, ih hrest]
    rfl

end Scan

/-! ## §2 The folder in its tree -/

namespace SourceFiles

variable {top : FileTree} {root : RawName} (h : SourceFiles files)
  (hroot : FilePath.IsEntryName root)
  (htop : top.entries.lookup root = some (.folder (FileTree.ofFiles files)))
include h hroot htop

/-- Each file is found under its name. -/
theorem find_file {f : String × FileContent} (hf : f ∈ files) :
    top.find (FilePath.join root (Text.octets f.1)) = .ok (.file f.2) := by
  obtain ⟨hlocate, hfolder⟩ := FileTree.locate_name hroot htop
  refine FileTree.find_join_of_file hlocate hfolder (h.names f hf) ?_
  rw [FileTree.lookup_ofFiles, lookup_of_mem h.distinct hf]
  rfl

/-- Nothing is ignored. -/
theorem load_eq : IgnoreRules.load top root [] = .ok [] := by
  obtain ⟨hlocate, hfolder⟩ := FileTree.locate_name hroot htop
  -- neither name of a file of rules is among the files, so nothing is ignored
  have hnone : ∀ name ∈ IgnoreRules.fileNames,
      IgnoreRules.ofFile top (FilePath.join root (Text.octets name)) = .ok [] := by
    intro name hname
    have hentry : FilePath.IsEntryName (Text.octets name) := by
      rw [FilePath.isEntryName_octets_iff]
      revert name
      decide
    have hlookup : (FileTree.ofFiles files).lookup (Text.octets name) = none := by
      rw [FileTree.lookup_ofFiles, Option.map_eq_none_iff]
      by_contra hfound
      obtain ⟨content, hcontent⟩ := Option.ne_none_iff_exists'.1 hfound
      exact h.unruled name hname (List.mem_map_of_mem (mem_of_lookup hcontent))
    unfold IgnoreRules.ofFile
    rw [FileTree.find_join_of_none hlocate hfolder hentry hlookup]
  simp only [IgnoreRules.fileNames, List.forall_mem_cons] at hnone
  unfold IgnoreRules.load IgnoreRules.fileNames
  simp only [List.mapM_cons, List.mapM_nil, hnone]
  rfl

/-- A scan lists the files as they are. -/
theorem ofFolder_eq (checksum : FileContent → String) :
    Scan.ofFolder (IgnoreRules.isIgnored []) checksum top root [] =
      .ok (files.map fun f => .bare f.1 (checksum f.2)) := by
  obtain ⟨hlocate, hfolder⟩ := FileTree.locate_name hroot htop
  unfold Scan.ofFolder FileTree.find
  simp only [hlocate, hfolder, Scan.ofEntries, Scan.sorted, Scan.files_ofFiles checksum h.languages]
  -- they are in order already
  rw [List.mergeSort_of_pairwise]
  exact List.pairwise_map.2 (h.sorted.imp fun hle => decide_eq_true hle)

end SourceFiles

/-! ## §3 Runs over the folder -/

namespace ProjectRun

/-- The folder of the run holds these files and nothing else, and the run ignores none. -/
structure IsFlat (r : ProjectRun) (files : List (String × FileContent)) : Prop where
  source : SourceFiles files
  root : FilePath.IsEntryName r.root
  folder : r.top.entries.lookup r.root = some (.folder (FileTree.ofFiles files))
  extra : r.indexer.extraIgnore = []

namespace IsFlat

variable {r : ProjectRun} (h : r.IsFlat files)
include h

private theorem scan_eq :
    r.indexer.scan r.top r.root = .ok (files.map fun f => .bare f.1 f.2.checksum) := by
  unfold Indexer.scan
  rw [h.extra, h.source.load_eq h.root h.folder]
  exact h.source.ofFolder_eq h.root h.folder _

/-- The files of the run are those of the folder. -/
theorem files_eq : r.files = files.map fun f => .bare f.1 f.2.checksum :=
  r.files_of_scan h.scan_eq

private theorem filepaths_eq : r.files.map FileRecord.filepath = files.map Prod.fst := by
  rw [h.files_eq, List.map_map]
  rfl

/-- Each of them is read under its name. -/
theorem contentAt?_eq {f : String × FileContent} (hf : f ∈ files) :
    r.contentAt? f.1 = some f.2 := by
  unfold contentAt? pathOf
  rw [h.source.find_file h.root h.folder hf]

/-- Every file that the run finds can be read. -/
theorem contentAt?_ne_none {g : FileRecord} (hg : g ∈ r.files) :
    r.contentAt? g.filepath ≠ none := by
  rw [h.files_eq] at hg
  obtain ⟨f, hf, rfl⟩ := List.mem_map.1 hg
  have hread : r.contentAt? f.1 = some f.2 := h.contentAt?_eq hf
  exact Option.ne_none_iff_exists'.2 ⟨f.2, hread⟩

/-- The folder's files have different names, so only the workers could get them into disorder. -/
theorem orderly (harranges : ∀ ds, (r.circumstances.arrange ds).Perm ds) : r.Orderly where
  distinct := by
    rw [h.filepaths_eq]
    exact h.source.distinct
  arranges := harranges

/-- Each file is read as it was found. -/
theorem truthful : r.Truthful := by
  intro g hg content hcontent
  rw [h.files_eq] at hg
  obtain ⟨f, hf, rfl⟩ := List.mem_map.1 hg
  have hread : r.contentAt? f.1 = some content := hcontent
  rw [h.contentAt?_eq hf] at hread
  exact Option.some.inj hread ▸ rfl

/-- If nothing interferes the run comes to its end. -/
theorem finished (hundisturbed : r.Undisturbed) {session : StoreSession}
    (htarget : session.disk.target = .nothing ∨ ∃ content, session.disk.target = .file content) :
    r.Finished session := by
  refine hundisturbed.finished ?_ htarget
  rw [h.files_eq]
  exact h.scan_eq

/-- A file is decomposed into the units of its text, in the language of its name. -/
theorem decomposeFile_eq {f : String × FileContent} (hf : f ∈ files) {language : Language}
    {text : String} {units : List CodeUnit} (checksum : String)
    (hlanguage : Language.ofPath? (r.pathOf f.1) = some language) (htext : f.2.text = .ok text)
    (hunits : r.indexer.unitsOf language f.1 text = .ok units) :
    r.indexer.decomposeFile r.top r.root (.bare f.1 checksum) = .ok ⟨f.1, checksum, units⟩ := by
  have hread : r.top.readText (r.pathOf f.1) = .ok text := by
    unfold FileTree.readText pathOf
    rw [h.source.find_file h.root h.folder hf]
    exact htext
  unfold pathOf at hlanguage hread
  unfold Indexer.decomposeFile
  simp only [FileRecord.bare, hlanguage, hread, hunits]

end IsFlat

/-- What a run proposes that says something new is in memory afterwards. -/
theorem Finished.memory_eq {r : ProjectRun} {session : StoreSession} (h : r.Finished session)
    (hnew : (r.proposed session.memory).sameContent session.memory = false) :
    (r.outcome session).session.memory = r.proposed session.memory := by
  rcases h.session with hcommitted | ⟨_, hsame⟩
  · rw [hcommitted]
  · rw [hnew] at hsame
    cases hsame

/-- A run that comes to its end is clean if every text is embedded. -/
theorem Finished.clean {r : ProjectRun} {session : StoreSession} (h : r.Finished session)
    (hfailures : (r.embedded session.memory).failures = []) : r.Clean session := by
  refine ⟨_, h.result, ?_⟩
  show (r.embedded session.memory).failures.map EmbeddingFailure.text = []
  rw [hfailures]
  rfl

end ProjectRun

/-! ## §4 Two samples -/

namespace Sample

open EmbeddingBatch Snapshot StoreSession

/-- The folder of the sample projects. -/
def root : RawPath := Text.octets "repo"

/-- A project of one file. -/
def top : FileTree := .folder [(root, .folder [(Text.octets "a.py", .file content)])]

/-- The two files of a project. -/
def pairEntries : List (RawName × FileTree) :=
  [(Text.octets "a.py", .file content), (Text.octets "b.py", .file otherContent)]

/-- A project of two files. -/
def pairTop : FileTree := .folder [(root, .folder pairEntries)]

/-- The indexer of the sample projects. -/
def indexer : Indexer Unit where
  embedder := embedder
  grammar := grammar
  extraIgnore := []
  snapshotPath := "index.db"

/-- The run over the project of one file. -/
def run : ProjectRun := ⟨indexer, .calm, top, root, ()⟩

/-- The run over the project of two files. -/
def pair : ProjectRun := ⟨indexer, .calm, pairTop, root, ()⟩

/-- The sample's file as the scan finds it. -/
def file : FileRecord := .bare "a.py" content.checksum

/-- The second file as the scan finds it. -/
def otherFile : FileRecord := .bare "b.py" otherContent.checksum

/-- The sample's file with its unit. -/
def decomposed : FileRecord := { file with units := [.ofGlobalCode "x = 1\n"] }

/-- The second file with its unit. -/
def otherDecomposed : FileRecord := { otherFile with units := [.ofGlobalCode "y = 2\n"] }

/-- The row of the first file's only unit. -/
def row : SnapshotRow :=
  ⟨"a.py", content.checksum,
    { CodeUnit.ofGlobalCode "x = 1\n" with embedding := some [Single.one] }⟩

/-- The row of the second file's only unit. -/
def otherRow : SnapshotRow :=
  ⟨"b.py", otherContent.checksum,
    { CodeUnit.ofGlobalCode "y = 2\n" with embedding := some [Single.one] }⟩

/-- The names of the files are those of source files. -/
theorem names_eq : ∀ name ∈ ["a.py", "b.py"], FilePath.IsEntryName (Text.octets name) ∧
    (Language.ofFileName? (Text.octets name)).isSome = true ∧
    Language.ofPath? (FilePath.join root (Text.octets name)) = some .python := by
  have hpython : Language.ofExtension? (Text.octets "py") = some .python := by
    simp only [Language.ofExtension?, Text.octets_eq]
    decide
  intro name hname
  have hentry : FilePath.IsEntryName (Text.octets name) := by
    rw [FilePath.isEntryName_octets_iff]
    revert name
    decide
  have hextension : FilePath.nameExtension? (Text.octets name) = some (Text.octets "py") ∧
      FilePath.extension? (FilePath.join root (Text.octets name)) = some (Text.octets "py") := by
    revert name
    simp only [root, Text.octets_eq]
    decide
  refine ⟨hentry, ?_, ?_⟩
  · rw [Language.ofFileName?, hextension.1, Option.bind_some, hpython]
    rfl
  · rw [Language.ofPath?, hextension.2, Option.bind_some, hpython]

theorem root_isEntryName : FilePath.IsEntryName root :=
  FilePath.isEntryName_octets_iff.2 (by decide)

/-- A file of one line has one unit. -/
theorem unitsOf_eq {line : String} (hline : line ∈ ["x = 1\n", "y = 2\n"]) (p : String) :
    indexer.unitsOf .python p line = .ok [.ofGlobalCode line] := by
  unfold Indexer.unitsOf
  rw [show indexer.grammar = grammar from rfl, ofParse_grammar line hline]

/-! ### The run over one file -/

/-- The first sample is the folder of one file. -/
theorem run_flat : run.IsFlat [("a.py", content)] where
  source := ⟨List.pairwise_singleton _ _, List.nodup_singleton _,
    fun f hf => (names_eq _ (by simp_all)).1,
    fun f hf => (names_eq _ (by simp_all)).2.1, by decide⟩
  root := root_isEntryName
  folder := List.lookup_cons_self
  extra := rfl

theorem files_eq : run.files = [file] := run_flat.files_eq

theorem contentAt?_eq : run.contentAt? "a.py" = some content :=
  run_flat.contentAt?_eq (f := ("a.py", content)) List.mem_cons_self

theorem orderly : run.Orderly := run_flat.orderly fun _ => .refl _

theorem truthful : run.Truthful := run_flat.truthful

theorem undisturbed : run.Undisturbed := ⟨rfl, rfl, rfl, rfl⟩

theorem finished : run.Finished fresh := run_flat.finished undisturbed (.inl rfl)

/-- The sample's file is one unit. -/
theorem decomposeFile_eq : run.indexer.decomposeFile run.top run.root file = .ok decomposed := by
  exact run_flat.decomposeFile_eq (f := ("a.py", content)) List.mem_cons_self _
    (names_eq "a.py" (by decide)).2.2 (FileContent.text_octets "x = 1\n")
    (unitsOf_eq (by decide) "a.py")

/-- The file is new, so it is decomposed. -/
theorem workload_eq : run.workload .empty = ⟨⟨[file], [], [], [], true⟩, [], [file]⟩ := by
  have hne : file.checksum ≠ Checksum.empty := checksum_ne_empty
  unfold ProjectRun.workload
  rw [files_eq]
  simp [Workload.make, UpdatePlan.make, UpdatePlan.fate, UpdatePlan.known?, Snapshot.empty,
    Snapshot.checksumOf?, Snapshot.embeddedBy, Workload.relocate?, Snapshot.embeddedUnits?, hne]

theorem results_eq : run.results .empty = [⟨"a.py", .ok decomposed⟩] := by
  unfold ProjectRun.results
  rw [workload_eq]
  show [Decomposed.mk "a.py" (run.indexer.decomposeFile run.top run.root file)] = _
  rw [decomposeFile_eq]

/-- Its unit is embedded. -/
theorem embedded_eq : run.embedded .empty =
    ⟨[{ file with units := [row.unit] }], []⟩ := by
  unfold ProjectRun.embedded Embedder.embedRecords
  rw [results_eq]
  show settle [decomposed] (embedder.embedTexts ["x = 1\n"] ()).outcome = _
  rw [replies_eq _ (by decide)]
  rfl

/-- The first run loses no unit. -/
theorem clean : run.Clean fresh := finished.clean (congrArg EmbedOutcome.failures embedded_eq)

/-- The first run proposes the row of that unit and nothing else. -/
theorem proposed_eq : run.proposed .empty = ⟨[row], some run.modelId, []⟩ := by
  unfold ProjectRun.proposed
  rw [workload_eq, embedded_eq]
  show ((ofRows (sortRows [row])).withModel run.modelId).withIncomplete [] = _
  rw [show sortRows [row] = [row] from List.mergeSort_singleton _]
  rfl

/-- That row is all there is in memory afterwards. -/
theorem memory_eq : (after [.run run]).memory = ⟨[row], some run.modelId, []⟩ := by
  have hnew : (run.proposed fresh.memory).sameContent fresh.memory = false := by
    rw [show fresh.memory = .empty from rfl, proposed_eq]
    rfl
  exact (finished.memory_eq hnew).trans proposed_eq

theorem memory_rows : row ∈ (after [.run run]).memory.rows := by
  rw [memory_eq]
  exact List.mem_cons_self

/-! ### The run over two files -/

/-- The second sample is the folder of both files. -/
theorem pair_flat : pair.IsFlat [("a.py", content), ("b.py", otherContent)] where
  source := ⟨by decide, by decide, fun _ hf => (names_eq _ (List.mem_map_of_mem hf)).1,
    fun _ hf => (names_eq _ (List.mem_map_of_mem hf)).2.1, by decide⟩
  root := root_isEntryName
  folder := List.lookup_cons_self
  extra := rfl

theorem pair_files_eq : pair.files = [file, otherFile] := pair_flat.files_eq

theorem pair_filepaths : pair.files.map FileRecord.filepath = ["a.py", "b.py"] :=
  pair_flat.filepaths_eq

theorem pair_orderly : pair.Orderly := pair_flat.orderly fun _ => .refl _

theorem pair_truthful : pair.Truthful := pair_flat.truthful

theorem pair_undisturbed : pair.Undisturbed := ⟨rfl, rfl, rfl, rfl⟩

/-- The project of two files is indexed after one of them has been. -/
theorem pair_finished : pair.Finished (after [.run run]) :=
  pair_flat.finished pair_undisturbed (after_target _)

/-- Each of the two files is one unit. -/
theorem pair_decomposeFile_eq :
    pair.indexer.decomposeFile pair.top pair.root file = .ok decomposed ∧
      pair.indexer.decomposeFile pair.top pair.root otherFile = .ok otherDecomposed := by
  exact ⟨pair_flat.decomposeFile_eq (f := ("a.py", content)) List.mem_cons_self _
      (names_eq "a.py" (by decide)).2.2 (FileContent.text_octets "x = 1\n")
      (unitsOf_eq (by decide) "a.py"),
    pair_flat.decomposeFile_eq (f := ("b.py", otherContent))
      (List.mem_cons_of_mem _ List.mem_cons_self) _ (names_eq "b.py" (by decide)).2.2
      (FileContent.text_octets "y = 2\n") (unitsOf_eq (by decide) "b.py")⟩

/-- Only the second file is new. -/
theorem pair_workload_eq : pair.workload ⟨[row], some run.modelId, []⟩ =
    ⟨⟨[otherFile], [], [file.key], [], true⟩, [], [otherFile]⟩ := by
  have hne : otherContent.checksum ≠ Checksum.empty := otherChecksum_ne_empty
  have hdiff : content.checksum ≠ otherContent.checksum := checksum_ne_otherChecksum
  have hmodel : pair.modelId = run.modelId := rfl
  unfold ProjectRun.workload
  rw [pair_files_eq, hmodel]
  simp [Workload.make, UpdatePlan.make, UpdatePlan.fate, UpdatePlan.known?, row, file, otherFile,
    FileRecord.bare, FileRecord.key, Snapshot.checksumOf?, Snapshot.embeddedBy,
    Snapshot.isIncomplete, Workload.relocate?, Snapshot.embeddedUnits?, List.eraseDups_cons, hne,
    hdiff]

/-- The unit of the second file is embedded. -/
theorem pair_embedded_eq : pair.embedded ⟨[row], some run.modelId, []⟩ =
    ⟨[{ otherFile with units := [otherRow.unit] }], []⟩ := by
  have hresults : pair.results ⟨[row], some run.modelId, []⟩ = [⟨"b.py", .ok otherDecomposed⟩] := by
    unfold ProjectRun.results
    rw [pair_workload_eq]
    show [Decomposed.mk "b.py" (pair.indexer.decomposeFile pair.top pair.root otherFile)] = _
    rw [pair_decomposeFile_eq.2]
  unfold ProjectRun.embedded Embedder.embedRecords
  rw [hresults]
  show settle [otherDecomposed] (embedder.embedTexts ["y = 2\n"] ()).outcome = _
  rw [replies_eq _ (by decide)]
  rfl

/-- After the first run, the second one loses no unit. -/
theorem pair_clean : pair.Clean (after [.run run]) := by
  refine pair_finished.clean ?_
  rw [memory_eq, pair_embedded_eq]

/-- The second run carries the row of the first file and adds the one of the second. -/
theorem pair_proposed_eq : pair.proposed ⟨[row], some run.modelId, []⟩ =
    ⟨[row, otherRow], some run.modelId, []⟩ := by
  -- the row carried over stands in front of the new one already
  have hsorted : sortRows [row, otherRow] = [row, otherRow] := by
    refine List.mergeSort_of_pairwise (List.pairwise_pair.2 ?_)
    show decide ("a.py" ≤ "b.py") = true
    decide
  have hcarried : [row].filter (fun r => [file.key].contains r.key) = [row] :=
    List.filter_eq_self.2 fun r hr => by
      rw [List.mem_singleton.1 hr]
      exact List.contains_iff_mem.2 List.mem_cons_self
  unfold ProjectRun.proposed
  rw [pair_workload_eq, pair_embedded_eq]
  show ((ofRows (sortRows ([row].filter (fun r => [file.key].contains r.key) ++
    [otherRow]))).withModel run.modelId).withIncomplete [] = _
  rw [hcarried, List.singleton_append, hsorted]
  rfl

/-- Both files are in memory after both runs. -/
theorem pair_memory_eq : (after [.run run, .run pair]).memory =
    ⟨[row, otherRow], some run.modelId, []⟩ := by
  have hproposed : pair.proposed (after [.run run]).memory =
      ⟨[row, otherRow], some run.modelId, []⟩ := by
    rw [memory_eq, pair_proposed_eq]
  have hnew : (pair.proposed (after [.run run]).memory).sameContent (after [.run run]).memory =
      false := by
    rw [hproposed, memory_eq]
    rfl
  exact (pair_finished.memory_eq hnew).trans hproposed

/-- For a new session both files are new. -/
theorem pair_workload_empty : pair.workload .empty =
    ⟨⟨[file, otherFile], [], [], [], true⟩, [], [file, otherFile]⟩ := by
  have hne : file.checksum ≠ Checksum.empty := checksum_ne_empty
  have hother : otherFile.checksum ≠ Checksum.empty := otherChecksum_ne_empty
  unfold ProjectRun.workload
  rw [pair_files_eq]
  simp [Workload.make, UpdatePlan.make, UpdatePlan.fate, UpdatePlan.known?, Snapshot.empty,
    Snapshot.checksumOf?, Snapshot.embeddedBy, Workload.relocate?, Snapshot.embeddedUnits?, hne,
    hother]

/-- It loses none without the first run either. -/
theorem pair_clean_fresh : pair.Clean fresh := by
  have hresults : pair.results .empty =
      [⟨"a.py", .ok decomposed⟩, ⟨"b.py", .ok otherDecomposed⟩] := by
    unfold ProjectRun.results
    rw [pair_workload_empty]
    show [Decomposed.mk "a.py" (pair.indexer.decomposeFile pair.top pair.root file),
      Decomposed.mk "b.py" (pair.indexer.decomposeFile pair.top pair.root otherFile)] = _
    rw [pair_decomposeFile_eq.1, pair_decomposeFile_eq.2]
  refine (pair_flat.finished pair_undisturbed (.inl rfl)).clean ?_
  unfold ProjectRun.embedded Embedder.embedRecords
  rw [show fresh.memory = .empty from rfl, hresults]
  show (settle [decomposed, otherDecomposed]
    (embedder.embedTexts ["x = 1\n", "y = 2\n"] ()).outcome).failures = []
  rw [replies_eq _ (by decide)]
  rfl

/-- The runs of the history are those of the samples. -/
theorem eq_of_mem_history {r : ProjectRun} (hr : .run r ∈ [SessionEvent.run run, .run pair]) :
    r = run ∨ r = pair := by
  rcases List.mem_cons.1 hr with heq | hr
  · exact .inl (SessionEvent.run.inj heq)
  · exact .inr (SessionEvent.run.inj (List.mem_singleton.1 hr))

theorem history_orderly {r : ProjectRun} (hr : .run r ∈ [SessionEvent.run run, .run pair]) :
    r.Orderly := by
  rcases eq_of_mem_history hr with rfl | rfl
  · exact orderly
  · exact pair_orderly

theorem history_truthful {r : ProjectRun} (hr : .run r ∈ [SessionEvent.run run, .run pair]) :
    r.Truthful := by
  rcases eq_of_mem_history hr with rfl | rfl
  · exact truthful
  · exact pair_truthful

end Sample

end CodeIndex
