import CodeIndex.Proofs.FileTree
import CodeIndex.Scan

/-!
# Where records lead

A scan goes through a folder by the raw names of its entries, and records each file under these
names as they are read.  What the records are good for is decided here: they are distinct exactly as
long as the names of no two files are read alike, and a record whose names are all UTF-8 leads back
to the file whose content was hashed.  A record with any other name leads elsewhere, or nowhere.
-/

namespace CodeIndex

open FilePath FileTree

namespace Scan

/-! ## §1 Files that a scan finds -/

/-- A file below a scanned folder: the names that lead to it, and what it holds. -/
structure FoundFile where
  names : List RawName
  content : FileContent

namespace FoundFile

/-- The file as seen from the folder above. -/
def below (name : RawName) (f : FoundFile) : FoundFile := ⟨name :: f.names, f.content⟩

/-- The path under which the file is recorded. -/
def filepath (f : FoundFile) : String := joinNames f.names

/-- The record of the file. -/
def record (checksum : FileContent → String) (f : FoundFile) : FileRecord :=
  .bare f.filepath (checksum f.content)

/-- All names on the way to the file are UTF-8. -/
def IsUtf8 (f : FoundFile) : Prop := ∀ n ∈ f.names, Text.IsUtf8 n

instance (f : FoundFile) : Decidable f.IsUtf8 :=
  inferInstanceAs (Decidable (∀ n ∈ f.names, Text.IsUtf8 n))

/-- Below a root that leads to `place`, the recorded path leads to the file itself. -/
def LeadsBack (top : FileTree) (root : RawPath) (place : List RawName) (f : FoundFile) : Prop :=
  top.locate (join root (Text.octets f.filepath)) = .ok (place ++ f.names)

end FoundFile

variable (ignored : RawPath → Bool → Bool) (checksum : FileContent → String) (base : RawPath)

mutual

/-- The files of one entry that a scan lists. -/
def foundAt (base : RawPath) (name : RawName) : FileTree → List FoundFile
  | .file content =>
    if ignored (join base name) false || (Language.ofFileName? name).isNone then []
    else [⟨[name], content⟩]
  | .link _ => []
  | .folder entries =>
    if isHidden name || ignored (join base name) true then []
    else (found (join base name) entries).map (.below name)

/-- The files below a folder with these entries that a scan lists. -/
def found (base : RawPath) : List (RawName × FileTree) → List FoundFile
  | [] => []
  | (name, t) :: rest => foundAt base name t ++ found base rest

end

/-- The files of a folder are those of its entries, one entry after the other. -/
theorem found_eq (entries : List (RawName × FileTree)) :
    found ignored base entries = entries.flatMap fun e => foundAt ignored base e.1 e.2 := by
  induction entries with
  | nil => rfl
  | cons e rest ih => rw [found, ih, List.flatMap_cons]

/-- The records of a folder are those of its entries, one entry after the other. -/
theorem files_eq (names : List RawName) (entries : List (RawName × FileTree)) :
    files ignored checksum base names entries =
      entries.flatMap fun e => entryFiles ignored checksum base names e.1 e.2 := by
  induction entries with
  | nil => rfl
  | cons e rest ih => rw [files, ih, List.flatMap_cons]

variable {ignored base} {entries : List (RawName × FileTree)} {f : FoundFile}

private theorem entryFiles_eq (base : RawPath) (names : List RawName) (name : RawName)
    (t : FileTree) :
    entryFiles ignored checksum base names name t =
      (foundAt ignored base name t).map fun f =>
        .bare (joinNames (names ++ f.names)) (checksum f.content) := by
  induction t generalizing base names name with
  | file content =>
    simp only [entryFiles, foundAt]
    split <;> rfl
  | link target => rfl
  | folder entries ih =>
    simp only [entryFiles, foundAt]
    split
    · rfl
    · -- entry by entry, each with the name of the folder in front
      rw [files_eq, found_eq, List.map_map, List.map_flatMap]
      refine List.flatMap_congr fun e he => ?_
      rw [ih e he]
      simp [FoundFile.below, Function.comp_def]

/-- A scan records the files that it finds. -/
theorem files_eq_map (entries : List (RawName × FileTree)) :
    files ignored checksum base [] entries =
      (found ignored base entries).map (FoundFile.record checksum) := by
  rw [files_eq, found_eq, List.map_flatMap]
  exact List.flatMap_congr fun e _ => entryFiles_eq checksum base [] e.1 e.2

/-! ## §2 Where they are -/

/-- The file lies in a tree where its names lead. -/
structure FoundFile.LiesIn (t : FileTree) (f : FoundFile) : Prop where
  named : ∀ n ∈ f.names, IsEntryName n
  file : at? f.names t = some (.file f.content)

/-- A folder is no file. -/
theorem FoundFile.LiesIn.names_ne_nil (h : f.LiesIn (.folder entries)) : f.names ≠ [] := by
  intro hnil
  have hfile := h.file
  rw [hnil, at?] at hfile
  cases hfile

/-- What lies in an entry lies in the folder, one name deeper. -/
theorem FoundFile.LiesIn.below {e : RawName × FileTree} (he : e ∈ entries)
    (hnamed : (folder entries).WellNamed) (h : f.LiesIn e.2) :
    (f.below e.1).LiesIn (.folder entries) := by
  obtain ⟨distinct, named, -⟩ := wellNamed_folder.1 hnamed
  refine ⟨List.forall_mem_cons.2 ⟨named e he, h.named⟩, ?_⟩
  rw [FoundFile.below, at?, FileTree.entries, lookup_of_mem distinct he]
  exact h.file

/-- Whatever is found is found at some entry. -/
theorem mem_found :
    f ∈ found ignored base entries ↔ ∃ e ∈ entries, f ∈ foundAt ignored base e.1 e.2 := by
  rw [found_eq, List.mem_flatMap]

private theorem liesIn_of_mem_foundAt {name : RawName} {t : FileTree}
    (hf : f ∈ foundAt ignored base name t) (hnamed : t.WellNamed) :
    ∃ g : FoundFile, f = g.below name ∧ g.LiesIn t := by
  induction t generalizing base name f with
  | file content =>
    rw [foundAt] at hf
    split at hf
    · cases hf
    · exact ⟨⟨[], content⟩, List.mem_singleton.1 hf, by simp, rfl⟩
  | link target =>
    rw [foundAt] at hf
    cases hf
  | folder entries ih =>
    rw [foundAt] at hf
    split at hf
    · cases hf
    · -- a file of the folder is one of an entry, with the names of both before its own
      obtain ⟨g, hg, rfl⟩ := List.mem_map.1 hf
      obtain ⟨e, he, hg⟩ := mem_found.1 hg
      obtain ⟨g, rfl, hlies⟩ := ih e he hg (hnamed.of_mem he)
      exact ⟨g.below e.1, rfl, hlies.below he hnamed⟩

/-- What is found lies in the folder. -/
theorem liesIn_of_mem_found (hnamed : (folder entries).WellNamed)
    (hf : f ∈ found ignored base entries) : f.LiesIn (.folder entries) := by
  obtain ⟨e, he, hf⟩ := mem_found.1 hf
  obtain ⟨g, rfl, hlies⟩ := liesIn_of_mem_foundAt hf (hnamed.of_mem he)
  exact hlies.below he hnamed

private theorem map_names_below (name : RawName) (fs : List FoundFile) :
    (fs.map (.below name)).map FoundFile.names = (fs.map FoundFile.names).map (name :: ·) := by
  simp [FoundFile.below, Function.comp_def]

/-- No file is found twice if none is found twice in one entry. -/
theorem nodup_found_of (hnamed : (folder entries).WellNamed)
    (h : ∀ e ∈ entries, ((foundAt ignored base e.1 e.2).map FoundFile.names).Nodup) :
    ((found ignored base entries).map FoundFile.names).Nodup := by
  have distinct : entries.Pairwise fun e e' => e.1 ≠ e'.1 :=
    List.pairwise_map.1 (wellNamed_folder.1 hnamed).1
  rw [found_eq, List.map_flatMap, List.nodup_flatMap]
  refine ⟨h, distinct.imp_of_mem fun he he' hne => ?_⟩
  -- what is found in an entry starts with its name
  rintro names hmem hmem'
  obtain ⟨f, hf, rfl⟩ := List.mem_map.1 hmem
  obtain ⟨f', hf', heq⟩ := List.mem_map.1 hmem'
  obtain ⟨g, rfl, -⟩ := liesIn_of_mem_foundAt hf (hnamed.of_mem he)
  obtain ⟨g', rfl, -⟩ := liesIn_of_mem_foundAt hf' (hnamed.of_mem he')
  exact hne (List.cons.inj heq).1.symm

private theorem nodup_foundAt {name : RawName} {t : FileTree} (hnamed : t.WellNamed) :
    ((foundAt ignored base name t).map FoundFile.names).Nodup := by
  induction t generalizing base name with
  | file content =>
    rw [foundAt]
    split <;> simp
  | link target => simp [foundAt]
  | folder entries ih =>
    rw [foundAt]
    split
    · simp
    · -- one name in front of all of them tells no two together
      rw [map_names_below]
      refine List.Nodup.map (fun _ _ => List.tail_eq_of_cons_eq) ?_
      exact nodup_found_of hnamed fun e he => ih e he (hnamed.of_mem he)

/-- A scan finds no file twice. -/
theorem nodup_found (hnamed : (folder entries).WellNamed) :
    ((found ignored base entries).map FoundFile.names).Nodup :=
  nodup_found_of hnamed fun _ he => nodup_foundAt (hnamed.of_mem he)

/-! ## §3 What the records lead to -/

namespace FoundFile

private theorem octets_filepath (f : FoundFile) :
    Text.octets f.filepath = ofNames (f.names.map recordedName) :=
  octets_joinNames f.names

/-- Two files are recorded alike exactly when their names are read alike. -/
theorem filepath_eq_iff {f g : FoundFile} (hf : f.LiesIn (.folder entries))
    (hg : g.LiesIn (.folder entries)) :
    f.filepath = g.filepath ↔ f.names.map Text.decodeLossy = g.names.map Text.decodeLossy :=
  joinNames_inj hf.names_ne_nil hf.named hg.names_ne_nil hg.named

private theorem names_eq_of_filepath_eq {f g : FoundFile} (hf : f.LiesIn (.folder entries))
    (hg : g.LiesIn (.folder entries)) (hf8 : f.IsUtf8) (hg8 : g.IsUtf8)
    (h : f.filepath = g.filepath) :
    f.names = g.names := by
  rw [filepath_eq_iff hf hg] at h
  rw [← map_recordedName_eq_iff.2 hf8, ← map_recordedName_eq_iff.2 hg8, map_recordedName, h,
    map_recordedName]

section Lookup

variable {top : FileTree} {root : RawPath} {place : List RawName}
  (hroot : top.locate root = .ok place) (hfolder : at? place top = some (.folder entries))
  (hf : f.LiesIn (.folder entries))
include hfolder hf

/-- From above the folder a file is reached by the way to the folder and its own names. -/
theorem LiesIn.at?_append : at? (place ++ f.names) top = some (.file f.content) := by
  rw [FileTree.at?_append, hfolder]
  exact hf.file

/-- Who follows a record back reads what was hashed. -/
theorem LeadsBack.readText (h : f.LeadsBack top root place) :
    top.readText (join root (Text.octets f.filepath)) = f.content.text := by
  rw [LeadsBack] at h
  rw [FileTree.readText, FileTree.find, h]
  simp only [hf.at?_append hfolder]

include hroot

private theorem leadsBack_of_isUtf8 (h : f.IsUtf8) : f.LeadsBack top root place := by
  rw [LeadsBack, octets_filepath, map_recordedName_eq_iff.2 h]
  exact locate_join_of_file hroot hfolder hf.names_ne_nil hf.named hf.file

/-- Where no link can lead around the recorded name, only UTF-8 names lead back. -/
theorem leadsBack_iff (hlinks : ∀ ns target, at? ns (.folder entries) ≠ some (.link target)) :
    f.LeadsBack top root place ↔ f.IsUtf8 := by
  refine ⟨fun h => ?_, leadsBack_of_isUtf8 hroot hfolder hf⟩
  rw [LeadsBack, octets_filepath] at h
  -- the recorded names lead to what they name, so they are the file's own
  have hnames : f.names = f.names.map recordedName :=
    eq_of_locate_join hroot hfolder (by simpa using hf.names_ne_nil) (forall_recorded hf.named)
      hlinks h
  exact map_recordedName_eq_iff.1 hnames.symm

end Lookup

end FoundFile

private theorem nodup_filepath_iff {fs : List FoundFile}
    (h : ∀ f ∈ fs, f.LiesIn (.folder entries)) :
    (fs.map FoundFile.filepath).Nodup ↔
      (fs.map fun f => f.names.map Text.decodeLossy).Nodup := by
  rw [List.Nodup, List.Nodup, List.pairwise_map, List.pairwise_map]
  exact List.Pairwise.iff_of_mem fun hf hg =>
    not_congr (FoundFile.filepath_eq_iff (h _ hf) (h _ hg))

/-- Names that are UTF-8 are told apart by what is recorded of them. -/
theorem nodup_filepath_of_isUtf8 {fs : List FoundFile} (hdistinct : (fs.map FoundFile.names).Nodup)
    (h : ∀ f ∈ fs, f.LiesIn (.folder entries)) (hutf8 : ∀ f ∈ fs, f.IsUtf8) :
    (fs.map FoundFile.filepath).Nodup := by
  rw [List.Nodup, List.pairwise_map] at hdistinct ⊢
  refine hdistinct.imp_of_mem fun hf hg hne heq => hne ?_
  exact FoundFile.names_eq_of_filepath_eq (h _ hf) (h _ hg) (hutf8 _ hf) (hutf8 _ hg) heq

variable (ignored base) in
/-- What a scan's records are good for.  They are those of different files, each where its names
lead, but as text the paths of two files are distinct only as long as their names are read
differently.  A file whose names are all UTF-8 is found again under its recorded path and holds what
was hashed; one with any other name is not, unless a link leads from the recorded name to it. -/
theorem recorded_paths_lead_back {top : FileTree} {root : RawPath} {place : List RawName}
    (hroot : top.locate root = .ok place) (hfolder : at? place top = some (.folder entries))
    (hnamed : WellNamed (.folder entries)) :
    ∃ records, ofFolder ignored checksum top root base = .ok records ∧
      records.Perm ((found ignored base entries).map (FoundFile.record checksum)) ∧
      ((found ignored base entries).map FoundFile.names).Nodup ∧
      (∀ f ∈ found ignored base entries, at? (place ++ f.names) top = some (.file f.content)) ∧
      ((records.map FileRecord.filepath).Nodup ↔
        ((found ignored base entries).map fun f => f.names.map Text.decodeLossy).Nodup) ∧
      ((∀ f ∈ found ignored base entries, f.IsUtf8) → (records.map FileRecord.filepath).Nodup) ∧
      (∀ f ∈ found ignored base entries, f.IsUtf8 → f.LeadsBack top root place ∧
        top.readText (join root (Text.octets f.filepath)) = f.content.text) ∧
      ((∀ ns target, at? ns (.folder entries) ≠ some (.link target)) →
        ∀ f ∈ found ignored base entries, f.LeadsBack top root place ↔ f.IsUtf8) := by
  have hlies : ∀ f ∈ found ignored base entries, f.LiesIn (.folder entries) :=
    fun f => liesIn_of_mem_found hnamed
  -- sorting only changes the order of the records, so their paths are those of the found files
  have hperm : (ofEntries ignored checksum base entries).Perm
      ((found ignored base entries).map (FoundFile.record checksum)) := by
    rw [ofEntries, sorted, files_eq_map]
    exact List.mergeSort_perm ..
  have hpaths : ((ofEntries ignored checksum base entries).map FileRecord.filepath).Nodup ↔
      ((found ignored base entries).map FoundFile.filepath).Nodup := by
    have hfilepath : FileRecord.filepath ∘ FoundFile.record checksum = FoundFile.filepath := rfl
    rw [(hperm.map _).nodup_iff, List.map_map, hfilepath]
  have hdistinct : ((found ignored base entries).map FoundFile.names).Nodup := nodup_found hnamed
  refine ⟨_, ?_, hperm, hdistinct, fun f hf => (hlies f hf).at?_append hfolder,
    hpaths.trans (nodup_filepath_iff hlies),
    fun hutf8 => hpaths.2 (nodup_filepath_of_isUtf8 hdistinct hlies hutf8), fun f hf hutf8 => ?_,
    fun hlinks f hf => FoundFile.leadsBack_iff hroot hfolder (hlies f hf) hlinks⟩
  · simp only [ofFolder, FileTree.find, hroot, hfolder]
  · have hleads := FoundFile.leadsBack_of_isUtf8 hroot hfolder (hlies f hf) hutf8
    exact ⟨hleads, hleads.readText hfolder (hlies f hf)⟩

/-! ## §4 A sample -/

end Scan

namespace Sample

open Scan

/-- The name `a.py` behind an octet that starts no character. -/
def strayName (b : UInt8) : RawName := b :: Text.octets "a.py"

/-- A file of such a name. -/
def strayFile (b : UInt8) (text : String) : FoundFile := ⟨[strayName b], .octets text.toUTF8⟩

/-- A file of another name. -/
def plainFile : FoundFile := ⟨[Text.octets "b.py"], .octets "x = 3\n".toUTF8⟩

/-- What a folder with these files holds. -/
def strayEntries : List (RawName × FileTree) :=
  [(strayName 0xFF, .file (.octets "x = 1\n".toUTF8)),
    (strayName 0xFE, .file (.octets "x = 2\n".toUTF8)),
    (Text.octets "b.py", .file (.octets "x = 3\n".toUTF8))]

/-- The folder of a project with such names. -/
def strayRoot : RawPath := Text.octets "repo"

/-- The tree above the folder. -/
def strayTop : FileTree := .folder [(strayRoot, .folder strayEntries)]

/-- Without rules all of them are listed. -/
theorem found_strayEntries : found (IgnoreRules.isIgnored []) [] strayEntries =
    [strayFile 0xFF "x = 1\n", strayFile 0xFE "x = 2\n", plainFile] := by
  have hsource : ∀ name ∈ [strayName 0xFF, strayName 0xFE, Text.octets "b.py"],
      (Language.ofFileName? name).isNone = false := by
    decide +kernel
  have hunruled : ∀ path folder, IgnoreRules.isIgnored [] path folder = false := fun _ _ => rfl
  simp only [List.forall_mem_cons] at hsource
  simp only [strayEntries, found, foundAt, hunruled, hsource, Bool.or_self, Bool.false_eq_true,
    if_false, List.singleton_append, List.append_nil]
  rfl

theorem strayRoot_isEntryName : IsEntryName strayRoot := isEntryName_octets_iff.2 (by decide)

/-- The folder is found under its name. -/
theorem strayTop_eq : strayTop.locate strayRoot = .ok [strayRoot] ∧
    at? [strayRoot] strayTop = some (.folder strayEntries) :=
  locate_name strayRoot_isEntryName List.lookup_cons_self

theorem isFile_of_mem_strayEntries : ∀ e ∈ strayEntries, ∃ content, e.2 = .file content := by
  simp [strayEntries]

theorem wellNamed_strayEntries : WellNamed (.folder strayEntries) := by
  have hnames : (strayEntries.map Prod.fst).Nodup ∧
      ∀ e ∈ strayEntries, IsEntryName e.1 := by
    simp only [strayEntries, strayName, Text.octets_eq]
    decide
  refine .folder hnames.1 hnames.2 fun e he => ?_
  obtain ⟨content, hfile⟩ := isFile_of_mem_strayEntries e he
  rw [hfile]
  exact .file content

/-- There is no link in the folder. -/
theorem at?_strayEntries_ne_link (ns : List RawName) (target : RawPath) :
    at? ns (.folder strayEntries) ≠ some (.link target) := by
  cases ns with
  | nil => simp [at?]
  | cons n ns =>
    simp only [at?, FileTree.entries]
    intro hlink
    obtain ⟨t, hlookup, hat⟩ := Option.bind_eq_some_iff.1 hlink
    -- an entry of the folder is a file, and nothing is below it
    obtain ⟨content, rfl⟩ := isFile_of_mem_strayEntries _ (mem_of_lookup hlookup)
    cases ns with
    | nil => cases hat
    | cons m ns => cases hat

end Sample

namespace Scan

open Sample in
/-- Two files of the sample are recorded under one path, which leads to neither of them; the third
is found again. -/
theorem recorded_paths_lead_back_sample :
    ∃ records, ofFolder (IgnoreRules.isIgnored []) FileContent.checksum strayTop strayRoot [] =
        .ok records ∧
      ¬ (records.map FileRecord.filepath).Nodup ∧
      ¬ (strayFile 0xFF "x = 1\n").LeadsBack strayTop strayRoot [strayRoot] ∧
      ¬ (strayFile 0xFE "x = 2\n").LeadsBack strayTop strayRoot [strayRoot] ∧
      plainFile.LeadsBack strayTop strayRoot [strayRoot] := by
  obtain ⟨records, hrecords, -, -, -, hdistinct, -, -, hleads⟩ :=
    recorded_paths_lead_back (IgnoreRules.isIgnored []) FileContent.checksum []
      strayTop_eq.1 strayTop_eq.2 wellNamed_strayEntries
  have hleads := hleads at?_strayEntries_ne_link
  -- each condition is about names alone, so it can be computed
  simp only [found_strayEntries, List.forall_mem_cons] at hdistinct hleads
  obtain ⟨hfirst, hsecond, hplain, -⟩ := hleads
  refine ⟨records, hrecords, ?_, ?_, ?_, ?_⟩
  · rw [hdistinct]
    decide +kernel
  · rw [hfirst]
    decide +kernel
  · rw [hsecond]
    decide +kernel
  · rw [hplain]
    decide +kernel

end Scan

end CodeIndex
