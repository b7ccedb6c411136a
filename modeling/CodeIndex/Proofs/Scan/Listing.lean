import CodeIndex.Proofs.FileTree.Relisting
import CodeIndex.Proofs.Language
import CodeIndex.Proofs.Scan
import Mathlib.Data.List.Sort
import Mathlib.Data.String.Basic

/-!
# Which files a scan lists

A scan prunes a tree on its way down, and sorts what is left by paths.  What it lists can be said
without the way: a file is listed if its name is that of a source file, if it is not ignored, and if
no folder between the root and the file is ignored or hidden.  Neither the way nor the order in
which folders list their entries leaves a trace in the records: `Scan.listing_exact`.
-/

namespace CodeIndex

open FilePath FileTree

namespace FilePath

variable {n : RawName} {names : List RawName}

/-! ## §1 Paths below an entry -/

private theorem ofNames_cons (hne : names ≠ []) :
    ofNames (n :: names) = n ++ slash :: ofNames names := by
  obtain ⟨m, names, rfl⟩ := List.exists_cons_of_ne_nil hne
  simp [ofNames]

/-- Whatever goes on below a path, the same stands before it. -/
theorem exists_join_eq_append (base : RawPath) :
    ∃ front, ∀ next, isAbsolute next = false → join base next = front ++ next := by
  by_cases hslash : base = [] ∨ base.getLast? = some slash
  · exact ⟨base, fun next hnext => by rw [join, hnext, if_neg Bool.false_ne_true, if_pos hslash]⟩
  · refine ⟨base ++ [slash], fun next hnext => ?_⟩
    rw [join, hnext, if_neg Bool.false_ne_true, if_neg hslash, List.append_assoc,
      List.singleton_append]

/-- The path of an entry continued by names is the path continued by the entry's name and these. -/
theorem join_join (base : RawPath) (hn : IsEntryName n) (hne : names ≠ [])
    (hnames : ∀ m ∈ names, IsEntryName m) :
    join (join base n) (ofNames names) = join base (ofNames (n :: names)) := by
  have hall : ∀ m ∈ n :: names, IsEntryName m := List.forall_mem_cons.2 ⟨hn, hnames⟩
  have hrelative : isAbsolute n = false := by
    rw [← ofNames_singleton n]
    exact isAbsolute_ofNames fun m hm => List.mem_singleton.1 hm ▸ hn
  obtain ⟨front, hfront⟩ := exists_join_eq_append base
  -- the entry's path does not end in a slash, since its name has none
  have hlast : ¬ (front ++ n = [] ∨ (front ++ n).getLast? = some slash) := by
    rw [List.getLast?_append_of_ne_nil _ hn.ne_nil]
    rintro (hnil | hslash)
    · exact hn.ne_nil (List.append_eq_nil_iff.1 hnil).2
    · exact hn.no_slash (List.mem_of_getLast? hslash)
  rw [hfront n hrelative, hfront _ (isAbsolute_ofNames hall), join, isAbsolute_ofNames hnames,
    if_neg Bool.false_ne_true, if_neg hlast, ofNames_cons hne, List.append_assoc]

end FilePath

namespace Scan

variable {ignored : RawPath → Bool → Bool} {base : RawPath} {name : RawName}
  {names : List RawName} {f : FoundFile} {entries entries' : List (RawName × FileTree)}
  {t : FileTree}

/-! ## §2 Names that pass -/

/-- Nothing about these names keeps a scan from listing the file that they lead to. -/
structure Passes (ignored : RawPath → Bool → Bool) (base : RawPath) (names : List RawName) :
    Prop where
  /-- The last name is that of a source file. -/
  source : ∃ name, names.getLast? = some name ∧ Language.IsSourceName name
  /-- The file is not ignored. -/
  kept : ignored (join base (ofNames names)) false = false
  /-- No folder on the way is hidden or ignored. -/
  reached : ∀ front name rest, names = front ++ name :: rest → rest ≠ [] →
    name.head? ≠ some dot ∧ ignored (join base (ofNames (front ++ [name]))) true = false

private theorem passes_singleton : Passes ignored base [name] ↔
    Language.IsSourceName name ∧ ignored (join base name) false = false := by
  constructor
  · rintro ⟨⟨last, hlast, hsource⟩, hkept, -⟩
    rw [ofNames_singleton] at hkept
    obtain rfl := Option.some.inj hlast
    exact ⟨hsource, hkept⟩
  · rintro ⟨hsource, hkept⟩
    refine ⟨⟨name, rfl, hsource⟩, ?_, ?_⟩
    · rwa [ofNames_singleton]
    · intro front m rest hsplit hrest
      -- there is no folder on the way
      have hlength := congrArg List.length hsplit
      have := List.length_pos_iff.2 hrest
      simp only [List.length_append, List.length_cons, List.length_nil] at hlength
      omega

/-- To pass through a folder, names must pass from there, and the folder itself must not stop
them. -/
theorem passes_cons (hname : IsEntryName name) (hne : names ≠ [])
    (hnames : ∀ n ∈ names, IsEntryName n) : Passes ignored base (name :: names) ↔
      (isHidden name || ignored (join base name) true) = false ∧
        Passes ignored (join base name) names := by
  have hlast : (name :: names).getLast? = names.getLast? := by
    rw [List.getLast?_cons, List.getLast?_eq_some_getLast hne]
    rfl
  -- a folder on the way has the same path, seen from above and from within the first folder
  have hfolder : ∀ front m rest, names = front ++ m :: rest →
      join (join base name) (ofNames (front ++ [m])) =
        join base (ofNames (name :: front ++ [m])) := by
    rintro front m rest rfl
    refine join_join base hname (by simp) fun n hn => hnames n ?_
    rw [List.append_cons]
    exact List.mem_append_left _ hn
  rw [Bool.or_eq_false_iff, isHidden, beq_eq_false_iff_ne]
  constructor
  · rintro ⟨⟨last, hsome, hsource⟩, hkept, hreached⟩
    have hfirst := hreached [] name names rfl hne
    rw [List.nil_append, ofNames_singleton] at hfirst
    refine ⟨hfirst, ⟨last, hlast ▸ hsome, hsource⟩, ?_, ?_⟩
    · rwa [join_join base hname hne hnames]
    · intro front m rest hsplit hrest
      rw [hfolder front m rest hsplit]
      exact hreached (name :: front) m rest (congrArg (name :: ·) hsplit) hrest
  · rintro ⟨hfirst, ⟨last, hsome, hsource⟩, hkept, hreached⟩
    refine ⟨⟨last, hlast.trans hsome, hsource⟩, ?_, ?_⟩
    · rwa [← join_join base hname hne hnames]
    · -- the folder at hand is the first one, or lies below it
      intro front m rest hsplit hrest
      cases front with
      | nil =>
        obtain ⟨rfl, -⟩ := List.cons.inj hsplit
        rwa [List.nil_append, ofNames_singleton]
      | cons first front =>
        obtain ⟨rfl, hsplit'⟩ := List.cons.inj hsplit
        rw [← hfolder front m rest hsplit']
        exact hreached front m rest hsplit' hrest

/-! ## §3 Files that are listed -/

/-- The file is one that a scan of the tree is to list. -/
structure FoundFile.Listed (ignored : RawPath → Bool → Bool) (base : RawPath) (t : FileTree)
    (f : FoundFile) : Prop where
  /-- It lies where its names lead, and no link is on the way. -/
  file : at? f.names t = some (.file f.content)
  passes : Passes ignored base f.names

/-- What is found in a folder, if it is known what is found in each entry. -/
theorem mem_found_iff_of (hnamed : (folder entries).WellNamed)
    (h : ∀ e ∈ entries, ∀ f : FoundFile, f ∈ foundAt ignored base e.1 e.2 ↔
      ∃ names, f.names = e.1 :: names ∧ at? names e.2 = some (.file f.content) ∧
        Passes ignored base f.names) :
    f ∈ found ignored base entries ↔ f.Listed ignored base (.folder entries) := by
  rw [mem_found]
  constructor
  · rintro ⟨e, he, hf⟩
    obtain ⟨names, hnames, hat, hpasses⟩ := (h e he f).1 hf
    refine ⟨?_, hpasses⟩
    rw [hnames, at?, FileTree.entries, lookup_of_mem (wellNamed_folder.1 hnamed).1 he]
    exact hat
  · rintro ⟨hat, hpasses⟩
    cases hnames : f.names with
    | nil =>
      rw [hnames, at?] at hat
      cases hat
    | cons n names =>
      rw [hnames] at hat
      -- the first name says which entry to look in
      obtain ⟨s, hlookup, hrest⟩ := Option.bind_eq_some_iff.1 hat
      have hmem := mem_of_lookup hlookup
      exact ⟨(n, s), hmem, (h _ hmem f).2 ⟨names, hnames, hrest, hpasses⟩⟩

private theorem mem_foundAt_file {content : FileContent} :
    f ∈ foundAt ignored base name (.file content) ↔
    f = ⟨[name], content⟩ ∧ Passes ignored base [name] := by
  rw [passes_singleton, ← Language.isSome_ofFileName?_iff, foundAt]
  cases ignored (join base name) false with
  | true => simp
  | false => cases Language.ofFileName? name <;> simp

/-- Pruning on the way down leaves the files whose names pass. -/
theorem mem_foundAt_iff (hname : IsEntryName name) (hnamed : t.WellNamed) :
    f ∈ foundAt ignored base name t ↔ ∃ names, f.names = name :: names ∧
      at? names t = some (.file f.content) ∧ Passes ignored base f.names := by
  induction t generalizing base name f with
  | file content =>
    rw [mem_foundAt_file]
    constructor
    · rintro ⟨rfl, hpasses⟩
      exact ⟨[], rfl, rfl, hpasses⟩
    · obtain ⟨names', content'⟩ := f
      rintro ⟨names, rfl, hat, hpasses⟩
      rw [at?_file] at hat
      split at hat
      · next hnil =>
        obtain rfl := hnil
        obtain rfl := FileTree.file.inj (Option.some.inj hat)
        exact ⟨rfl, hpasses⟩
      · cases hat
  | link target =>
    refine iff_of_false (by simp [foundAt]) ?_
    rintro ⟨names, -, hat, -⟩
    rw [at?_link] at hat
    split at hat <;> cases hat
  | folder entries ih =>
    have hbelow : ∀ g, g ∈ found ignored (join base name) entries ↔
        g.Listed ignored (join base name) (.folder entries) := fun g =>
      mem_found_iff_of hnamed fun e he g =>
        ih e he ((wellNamed_folder.1 hnamed).2.1 e he) (hnamed.of_mem he)
    -- a hidden or ignored folder is left out with all that is below it, and no names pass it
    rw [foundAt]
    constructor
    · intro hf
      split at hf
      · cases hf
      · next hopen =>
        obtain ⟨g, hg, rfl⟩ := List.mem_map.1 hf
        obtain ⟨hat, hpasses⟩ := (hbelow g).1 hg
        have hlies : g.LiesIn (.folder entries) := ⟨hnamed.everyName.of_at? hat, hat⟩
        refine ⟨g.names, rfl, hat, (passes_cons hname hlies.names_ne_nil hlies.named).2 ?_⟩
        exact ⟨Bool.eq_false_iff.2 hopen, hpasses⟩
    · obtain ⟨names', content⟩ := f
      rintro ⟨names, rfl, hat, hpasses⟩
      have hlies : FoundFile.LiesIn (.folder entries) ⟨names, content⟩ :=
        ⟨hnamed.everyName.of_at? hat, hat⟩
      obtain ⟨hopen, hrest⟩ := (passes_cons hname hlies.names_ne_nil hlies.named).1 hpasses
      rw [if_neg (Bool.eq_false_iff.1 hopen)]
      exact List.mem_map.2 ⟨⟨names, content⟩, (hbelow _).2 ⟨hat, hrest⟩, rfl⟩

/-- A scan finds the files that are to be listed, and no others. -/
theorem mem_found_iff (hnamed : (folder entries).WellNamed) :
    f ∈ found ignored base entries ↔ f.Listed ignored base (.folder entries) :=
  mem_found_iff_of hnamed fun e he _ =>
    mem_foundAt_iff ((wellNamed_folder.1 hnamed).2.1 e he) (hnamed.of_mem he)

/-! ## §4 Their order -/

/-- The files that a scan lists, in the order of their paths. -/
def listing (ignored : RawPath → Bool → Bool) (base : RawPath)
    (entries : List (RawName × FileTree)) : List FoundFile :=
  (found ignored base entries).mergeSort fun f g => decide (f.filepath ≤ g.filepath)

private theorem perm_listing (ignored : RawPath → Bool → Bool) (base : RawPath)
    (entries : List (RawName × FileTree)) :
    (listing ignored base entries).Perm (found ignored base entries) :=
  List.mergeSort_perm ..

private theorem ofEntries_eq (checksum : FileContent → String)
    (entries : List (RawName × FileTree)) :
    ofEntries ignored checksum base entries =
      (listing ignored base entries).map (FoundFile.record checksum) := by
  rw [ofEntries, files_eq_map, sorted, listing]
  exact (List.map_mergeSort (f := FoundFile.record checksum) fun _ _ _ _ => rfl).symm

private theorem mem_listing_iff (hnamed : (folder entries).WellNamed) :
    f ∈ listing ignored base entries ↔ f.Listed ignored base (.folder entries) :=
  (perm_listing ignored base entries).mem_iff.trans (mem_found_iff hnamed)

private theorem nodup_listing (hnamed : (folder entries).WellNamed) :
    ((listing ignored base entries).map FoundFile.names).Nodup :=
  ((perm_listing ignored base entries).map _).nodup_iff.2 (nodup_found hnamed)

private theorem pairwise_le_listing (ignored : RawPath → Bool → Bool) (base : RawPath)
    (entries : List (RawName × FileTree)) :
    (listing ignored base entries).Pairwise fun f g => f.filepath ≤ g.filepath := by
  have htotal : Std.Total fun f g : FoundFile => f.filepath ≤ g.filepath :=
    ⟨fun f g => le_total f.filepath g.filepath⟩
  have htrans : IsTrans FoundFile fun f g => f.filepath ≤ g.filepath := ⟨fun _ _ _ => le_trans⟩
  exact List.pairwise_mergeSort' _ (found ignored base entries)

/-- Where the names of files are UTF-8, no two files have one path. -/
theorem pairwise_lt_listing (hnamed : (folder entries).WellNamed)
    (hutf8 : ∀ f : FoundFile, f.Listed ignored base (.folder entries) → f.IsUtf8) :
    (listing ignored base entries).Pairwise fun f g => f.filepath < g.filepath := by
  have hlies : ∀ f ∈ listing ignored base entries, f.LiesIn (.folder entries) := fun f hf =>
    liesIn_of_mem_found hnamed ((perm_listing ..).mem_iff.1 hf)
  have hdistinct : ((listing ignored base entries).map FoundFile.filepath).Nodup :=
    nodup_filepath_of_isUtf8 (nodup_listing hnamed) hlies fun f hf =>
      hutf8 f ((mem_listing_iff hnamed).1 hf)
  rw [List.Nodup, List.pairwise_map] at hdistinct
  exact ((pairwise_le_listing ignored base entries).and hdistinct).imp fun ⟨hle, hne⟩ =>
    lt_of_le_of_ne hle hne

/-- A listing is known by the files that are to be listed. -/
theorem listing_eq_of_listed_iff (hnamed : (folder entries).WellNamed)
    (hnamed' : (folder entries').WellNamed)
    (hutf8 : ∀ f : FoundFile, f.Listed ignored base (.folder entries) → f.IsUtf8)
    (hsame : ∀ f : FoundFile, f.Listed ignored base (.folder entries') ↔
      f.Listed ignored base (.folder entries)) :
    listing ignored base entries' = listing ignored base entries := by
  have hsorted := pairwise_lt_listing hnamed hutf8
  have hsorted' := pairwise_lt_listing hnamed' fun f hf => hutf8 f ((hsame f).1 hf)
  have hirrefl : Std.Irrefl fun f g : FoundFile => f.filepath < g.filepath :=
    ⟨fun f => lt_irrefl f.filepath⟩
  have hasymm : Std.Antisymm fun f g : FoundFile => f.filepath < g.filepath :=
    ⟨fun f g hfg hgf => absurd hgf (lt_asymm hfg)⟩
  -- in a strict order only the members are left to compare
  refine hsorted'.eq_of_mem_iff hsorted fun f => ?_
  rw [mem_listing_iff hnamed', mem_listing_iff hnamed, hsame]

private theorem FoundFile.listed_relisted_iff {t' : FileTree} (hnamed : t.WellNamed)
    (h : Relisted t t') :
    f.Listed ignored base t' ↔ f.Listed ignored base t := by
  constructor
  · rintro ⟨hfile, hpasses⟩
    exact ⟨(h.at?_eq_file_iff hnamed f.names).1 hfile, hpasses⟩
  · rintro ⟨hfile, hpasses⟩
    exact ⟨(h.at?_eq_file_iff hnamed f.names).2 hfile, hpasses⟩

/-! ## §5 Scans -/

/-- A scan of a folder records its listing. -/
theorem ofFolder_eq (checksum : FileContent → String) {top : FileTree} {root : RawPath}
    (hroot : top.find root = .ok (.folder entries)) :
    ofFolder ignored checksum top root base =
      .ok ((listing ignored base entries).map (FoundFile.record checksum)) := by
  rw [ofFolder, hroot]
  exact congrArg Except.ok (ofEntries_eq checksum entries)

/-- A scan finds exactly the right files.  Where all names are UTF-8 it has one record, with the
path through its names, its checksum and no units, for each file whose name is that of a source
file, that is not ignored, and that no hidden or ignored folder stands before.  The records are in
the strict order of their paths.  So they are the same, in whatever order folders list their
entries. -/
theorem listing_exact (ignored : RawPath → Bool → Bool) (checksum : FileContent → String)
    (base : RawPath) {top : FileTree} {root : RawPath} {entries : List (RawName × FileTree)}
    (hroot : top.find root = .ok (.folder entries)) (hnamed : (folder entries).WellNamed)
    (hutf8 : (folder entries).EveryName Text.IsUtf8) :
    ∃ files : List FoundFile,
      ofFolder ignored checksum top root base =
        .ok (files.map fun f => ⟨joinNames f.names, checksum f.content, []⟩) ∧
      (∀ f, f ∈ files ↔ f.Listed ignored base (.folder entries)) ∧
      (files.map FoundFile.names).Nodup ∧
      (files.map fun f => joinNames f.names).Pairwise (· < ·) ∧
      (∀ f ∈ files, Text.octets (joinNames f.names) = ofNames f.names) ∧
      ∀ (top' : FileTree) (root' : RawPath) (entries' : List (RawName × FileTree)),
        top'.find root' = .ok (.folder entries') → Relisted (.folder entries) (.folder entries') →
          ofFolder ignored checksum top' root' base = ofFolder ignored checksum top root base := by
  -- all names are UTF-8, so records tell files apart
  have hlisted : ∀ f : FoundFile, f.Listed ignored base (.folder entries) → f.IsUtf8 :=
    fun f hf => hutf8.of_at? hf.file
  refine ⟨listing ignored base entries, ofFolder_eq checksum hroot,
    fun f => mem_listing_iff hnamed, nodup_listing hnamed,
    List.pairwise_map.2 (pairwise_lt_listing hnamed hlisted), fun f hf => ?_, ?_⟩
  · rw [octets_joinNames, map_recordedName_eq_iff.2 (hlisted f ((mem_listing_iff hnamed).1 hf))]
  · intro top' root' entries' hroot' hrelisted
    rw [ofFolder_eq checksum hroot', ofFolder_eq checksum hroot,
      listing_eq_of_listed_iff hnamed (hnamed.relisted hrelisted) hlisted fun _ =>
        FoundFile.listed_relisted_iff hnamed hrelisted]

end Scan

/-! ## §6 A sample -/

namespace Sample

open Scan

/-- Rules that ignore the folders at `build`. -/
def ignoresBuild (path : RawPath) (folder : Bool) : Bool := folder && path == Text.octets "build"

/-- What every file of the sample holds. -/
def sourceContent : FileContent := .octets "x = 1\n".toUTF8

/-- A folder of one file. -/
def folderOf (name : String) : FileTree := .folder [(Text.octets name, .file sourceContent)]

/-- A file and a link to it, and three folders of one file each, of which the first is hidden and
the second is ignored. -/
def sourceEntries : List (RawName × FileTree) :=
  [(Text.octets "alias.py", .link (Text.octets "a.py")), (Text.octets ".git", folderOf "hook.py"),
    (Text.octets "build", folderOf "out.py"), (Text.octets "a", folderOf "b.py"),
    (Text.octets "a.py", .file sourceContent)]

/-- A project that lists its entries in this order. -/
def sourceTop (entries : List (RawName × FileTree)) : FileTree :=
  .folder [(strayRoot, .folder entries)]

/-- The file at these names. -/
def fileAt (names : List String) : FoundFile := ⟨names.map Text.octets, sourceContent⟩

/-- The folder is found, in whatever order it lists its entries. -/
theorem find_sourceTop (entries : List (RawName × FileTree)) :
    (sourceTop entries).find strayRoot = .ok (.folder entries) := by
  have hentry : (sourceTop entries).entries.lookup strayRoot = some (.folder entries) :=
    List.lookup_cons_self
  obtain ⟨hlocate, hfolder⟩ := locate_name strayRoot_isEntryName hentry
  unfold FileTree.find
  simp only [hlocate, hfolder]

theorem wellNamed_folderOf {name : String} (h : IsEntryName (Text.octets name)) :
    (folderOf name).WellNamed :=
  .folder (List.nodup_singleton _) (List.forall_mem_singleton.2 h)
    (List.forall_mem_singleton.2 (.file sourceContent))

theorem wellNamed_sourceEntries : (folder sourceEntries).WellNamed := by
  have hdistinct : (sourceEntries.map Prod.fst).Nodup := by
    simp only [sourceEntries, Text.octets_eq]
    decide
  have hnamed : ∀ e ∈ sourceEntries, IsEntryName e.1 := by
    simp only [sourceEntries, Text.octets_eq]
    decide
  refine .folder hdistinct hnamed ?_
  simp only [sourceEntries, List.forall_mem_cons]
  exact ⟨.link _, wellNamed_folderOf (isEntryName_octets_iff.2 (by decide)),
    wellNamed_folderOf (isEntryName_octets_iff.2 (by decide)),
    wellNamed_folderOf (isEntryName_octets_iff.2 (by decide)), .file sourceContent, nofun⟩

theorem everyName_folderOf (name : String) : (folderOf name).EveryName Text.IsUtf8 :=
  .folder (List.forall_mem_singleton.2 (Text.isUtf8_octets name))
    (List.forall_mem_singleton.2 (.file sourceContent))

theorem everyName_sourceEntries : (folder sourceEntries).EveryName Text.IsUtf8 := by
  refine .folder (by simp [sourceEntries, Text.isUtf8_octets]) ?_
  simp only [sourceEntries, List.forall_mem_cons]
  exact ⟨.link _, everyName_folderOf _, everyName_folderOf _, everyName_folderOf _,
    .file sourceContent, nofun⟩

/-- The file in the folder that is neither hidden nor ignored is listed. -/
theorem listed_nested :
    (fileAt ["a", "b.py"]).Listed ignoresBuild [] (.folder sourceEntries) := by
  have hfolder : sourceEntries.lookup (Text.octets "a") = some (folderOf "b.py") :=
    lookup_of_mem (wellNamed_folder.1 wellNamed_sourceEntries).1 (by simp [sourceEntries])
  have hfile : at? [Text.octets "a", Text.octets "b.py"] (.folder sourceEntries) =
      some (.file sourceContent) :=
    (at?_cons_of_lookup hfolder _).trans (at?_cons_of_lookup List.lookup_cons_self [])
  refine ⟨hfile, ?_⟩
  have hsource : Language.IsSourceName (Text.octets "b.py") := by
    refine ⟨Text.octets "b", .python, "py", by decide, ?_, ?_⟩
    · simp [Text.octets_eq]
    · simp only [Text.octets_eq]
      rfl
  have hopen : (isHidden (Text.octets "a") ||
      ignoresBuild (join [] (Text.octets "a")) true) = false := by
    simp only [ignoresBuild, Text.octets_eq]
    decide
  exact (passes_cons (isEntryName_octets_iff.2 (by decide)) (by simp)
    (List.forall_mem_singleton.2 (isEntryName_octets_iff.2 (by decide)))).2
    ⟨hopen, passes_singleton.2 ⟨hsource, rfl⟩⟩

/-- The file in the hidden folder is not listed. -/
theorem not_listed_hidden :
    ¬ (fileAt [".git", "hook.py"]).Listed ignoresBuild [] (.folder sourceEntries) := by
  have hhidden : (Text.octets ".git").head? = some dot := by
    rw [Text.octets_eq]
    rfl
  rintro ⟨-, hpasses⟩
  exact (hpasses.reached [] _ _ rfl (by simp)).1 hhidden

/-- The file in the ignored folder is not listed. -/
theorem not_listed_ignored :
    ¬ (fileAt ["build", "out.py"]).Listed ignoresBuild [] (.folder sourceEntries) := by
  have hignored : ignoresBuild (join [] (ofNames ([] ++ [Text.octets "build"]))) true = true := by
    rw [List.nil_append, ofNames_singleton]
    simp only [ignoresBuild, Text.octets_eq]
    decide
  rintro ⟨-, hpasses⟩
  exact Bool.false_ne_true ((hpasses.reached [] _ _ rfl (by simp)).2.symm.trans hignored)

/-- The link is not listed. -/
theorem not_listed_link :
    ¬ (fileAt ["alias.py"]).Listed ignoresBuild [] (.folder sourceEntries) := by
  rintro ⟨hfile, -⟩
  have hlink : at? [Text.octets "alias.py"] (.folder sourceEntries) =
      some (.link (Text.octets "a.py")) := at?_cons_of_lookup List.lookup_cons_self []
  rw [show (fileAt ["alias.py"]).names = [Text.octets "alias.py"] from rfl, hlink] at hfile
  cases hfile

end Sample

open Sample in
/-- Of the sample's files the nested one is listed; those in the hidden and in the ignored folder
and the link are not; and nothing changes when its folder is listed from the end. -/
theorem Scan.listing_exact_sample : ∃ files : List FoundFile,
    ofFolder ignoresBuild FileContent.checksum (sourceTop sourceEntries) strayRoot [] =
        .ok (files.map fun f => ⟨joinNames f.names, f.content.checksum, []⟩) ∧
      fileAt ["a", "b.py"] ∈ files ∧ fileAt [".git", "hook.py"] ∉ files ∧
      fileAt ["build", "out.py"] ∉ files ∧ fileAt ["alias.py"] ∉ files ∧
      ofFolder ignoresBuild FileContent.checksum (sourceTop sourceEntries.reverse) strayRoot [] =
        .ok (files.map fun f => ⟨joinNames f.names, f.content.checksum, []⟩) := by
  obtain ⟨files, hok, hlisted, -, -, -, horder⟩ :=
    listing_exact ignoresBuild FileContent.checksum [] (find_sourceTop sourceEntries)
      wellNamed_sourceEntries everyName_sourceEntries
  have hreversed := horder (sourceTop sourceEntries.reverse) strayRoot sourceEntries.reverse
    (find_sourceTop _) (.shuffled (List.reverse_perm sourceEntries).symm)
  refine ⟨files, hok, (hlisted _).2 listed_nested, ?_, ?_, ?_, hreversed.trans hok⟩
  · exact fun h => not_listed_hidden ((hlisted _).1 h)
  · exact fun h => not_listed_ignored ((hlisted _).1 h)
  · exact fun h => not_listed_link ((hlisted _).1 h)

end CodeIndex
