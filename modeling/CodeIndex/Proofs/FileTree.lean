import CodeIndex.FileTree
import CodeIndex.Proofs.Entries
import CodeIndex.Proofs.FilePath

/-!
# Following paths

A walk to a folder can go on from there, with the links that it has left.  Names below the folder
then lead to the file that they name, and where there are no links they lead nowhere else.
-/

namespace CodeIndex.FileTree

variable {top : FileTree} {place place' names names' : List RawName} {links : Nat} {root : RawPath}
  {content : FileContent} {entries : List (RawName × FileTree)}

/-! ## §1 Trees with proper names -/

/-- All names in a tree are names of entries, and no folder has two entries of one name. -/
inductive WellNamed : FileTree → Prop where
  | file (content : FileContent) : WellNamed (.file content)
  | link (target : RawPath) : WellNamed (.link target)
  | folder {entries : List (RawName × FileTree)}
      (distinct : (entries.map Prod.fst).Nodup)
      (named : ∀ e ∈ entries, FilePath.IsEntryName e.1)
      (below : ∀ e ∈ entries, WellNamed e.2) : WellNamed (.folder entries)

/-- A folder is well named if its entries have different names and are so themselves. -/
theorem wellNamed_folder : (folder entries).WellNamed ↔ (entries.map Prod.fst).Nodup ∧
    (∀ e ∈ entries, FilePath.IsEntryName e.1) ∧ ∀ e ∈ entries, e.2.WellNamed := by
  constructor
  · intro h
    cases h with
    | folder distinct named below => exact ⟨distinct, named, below⟩
  · rintro ⟨distinct, named, below⟩
    exact .folder distinct named below

/-- Below a well named folder everything is well named. -/
theorem WellNamed.of_mem (h : WellNamed (.folder entries)) {e : RawName × FileTree}
    (he : e ∈ entries) : WellNamed e.2 :=
  (wellNamed_folder.1 h).2.2 e he

/-- A property of a tree may be shown with the property of what a folder holds at hand. -/
@[elab_as_elim, induction_eliminator]
theorem inductionOn {motive : FileTree → Prop} (file : ∀ content, motive (.file content))
    (link : ∀ target, motive (.link target))
    (folder : ∀ entries, (∀ e ∈ entries, motive e.2) → motive (.folder entries))
    (t : FileTree) : motive t :=
  FileTree.rec (motive_1 := motive) (motive_2 := fun entries => ∀ e ∈ entries, motive e.2)
    (motive_3 := fun e => motive e.2) file link folder (fun _ he => absurd he List.not_mem_nil)
    (fun _ _ he hes => List.forall_mem_cons.2 ⟨he, hes⟩) (fun _ _ h => h) t

/-! ## §2 Looking along names -/

/-- One goes along names in one go or in two. -/
theorem at?_append (names names' : List RawName) (t : FileTree) :
    at? (names ++ names') t = (at? names t).bind (at? names') := by
  induction names generalizing t with
  | nil => rfl
  | cons n names ih =>
    simp only [List.cons_append, at?, ih]
    cases t.entries.lookup n <;> rfl

/-- Below an entry one goes on from there. -/
theorem at?_cons_of_lookup {n : RawName} {t t' : FileTree} (h : t.entries.lookup n = some t')
    (names : List RawName) : at? (n :: names) t = at? names t' := by
  simp only [at?, h, Option.bind_some]

/-- Nothing is below a file. -/
@[simp] theorem at?_file (content : FileContent) :
    at? names (.file content) = if names = [] then some (.file content) else none := by
  cases names <;> rfl

/-- Nothing is below a link. -/
@[simp] theorem at?_link (target : RawPath) :
    at? names (.link target) = if names = [] then some (.link target) else none := by
  cases names <;> rfl

/-! ## §3 Walks -/

section Walks

variable {steps : List FilePath.Component} {n : RawName}

private theorem walk_folder (h : at? (place ++ [n]) top = some (.folder entries)) :
    walk top false links place (.name n :: steps) = walk top false links (place ++ [n]) steps := by
  rw [walk, h]

private theorem walk_link {target : RawPath} (h : at? (place ++ [n]) top = some (.link target)) :
    walk top false (links + 1) place (.name n :: steps) =
      walk top false links place (FilePath.components target ++ steps) := by
  rw [walk, h]

private theorem walk_file (h : at? (place ++ [n]) top = some (.file content)) :
    walk top false links place [.name n] = .ok (place ++ [n]) := by
  rw [walk, h]
  rfl

/-- A walk that ended at a folder can go on there. -/
theorem walk_append (rest : List FilePath.Component)
    (hwalk : walk top false links place steps = .ok place')
    (hfolder : at? place' top = some (.folder entries)) :
    ∃ left, walk top false links place (steps ++ rest) = walk top false left place' rest := by
  fun_induction walk top false links place steps with
  | case1 links place =>
    cases hwalk
    exact ⟨links, rfl⟩
  | case3 links place steps ih =>
    rw [List.cons_append, walk]
    exact ih hwalk
  | case4 links place steps ih =>
    rw [List.cons_append, walk]
    exact ih hwalk
  | case7 links place n steps entries' hentry ih =>
    rw [List.cons_append, walk_folder hentry]
    exact ih hwalk
  | case8 links place n content hentry =>
    -- the walk would have ended at a file
    cases hwalk
    rw [hfolder] at hentry
    cases hentry
  | case11 place n steps target hentry links ih =>
    rw [List.cons_append, Nat.succ_eq_add_one, walk_link hentry, ← List.append_assoc]
    exact ih hwalk
  | case5 => contradiction
  | case2 | case6 | case9 | case10 => cases hwalk

/-- Names lead to the file that they name. -/
theorem walk_names (hne : names ≠ []) (hfile : at? (place ++ names) top = some (.file content)) :
    walk top false links place (names.map .name) = .ok (place ++ names) := by
  induction names generalizing place with
  | nil => exact absurd rfl hne
  | cons n names ih =>
    rw [List.append_cons] at hfile ⊢
    have hentry := hfile
    rw [at?_append] at hentry
    cases hat : at? (place ++ [n]) top with
    | none => simp [hat] at hentry
    | some t =>
      -- a file may only come last, and a folder never does
      cases t with
      | file content' =>
        obtain rfl : names = [] := by
          rw [hat, Option.bind_some, at?_file] at hentry
          exact of_not_not fun h => by simp [h] at hentry
        simpa using walk_file hat
      | link target => simp [hat] at hentry
      | folder entries =>
        have hnames : names ≠ [] := fun h => by simp [h, hat, at?] at hentry
        rw [List.map_cons, walk_folder hat]
        exact ih hnames hfile

/-- Without links, names lead nowhere else. -/
theorem eq_of_walk_names (hlinks : ∀ ns target, at? (place ++ ns) top ≠ some (.link target))
    (hwalk : walk top false links place (names.map .name) = .ok place') :
    place' = place ++ names := by
  induction names generalizing place with
  | nil =>
    rw [List.map_nil, walk] at hwalk
    cases hwalk
    simp
  | cons n names ih =>
    have hlinks' : ∀ ns target, at? (place ++ [n] ++ ns) top ≠ some (.link target) :=
      fun ns target => by simpa using hlinks (n :: ns) target
    rw [List.map_cons, walk] at hwalk
    cases hat : at? (place ++ [n]) top with
    | none => simp [hat] at hwalk
    | some t =>
      -- without links the walk goes on below a folder or ends at a file
      cases t with
      | file content =>
        rw [hat] at hwalk
        obtain rfl : names = [] := of_not_not fun h => by simp [h] at hwalk
        cases hwalk
        rfl
      | link target => exact absurd hat (hlinks [n] target)
      | folder entries =>
        rw [hat] at hwalk
        rw [List.append_cons]
        exact ih hlinks' hwalk

end Walks

/-! ## §4 Paths below a folder -/

section Below

variable (hroot : top.locate root = .ok place) (hfolder : at? place top = some (.folder entries))
include hroot hfolder

/-- A path below a folder is followed from the folder. -/
theorem locate_join (hne : names ≠ []) (hnames : ∀ n ∈ names, FilePath.IsEntryName n) :
    ∃ left, top.locate (FilePath.join root (FilePath.ofNames names)) =
      walk top false left place (names.map .name) := by
  rw [locate, FilePath.components_join hne hnames]
  exact walk_append _ hroot hfolder

/-- The path through the names of a file leads to it. -/
theorem locate_join_of_file (hne : names ≠ []) (hnames : ∀ n ∈ names, FilePath.IsEntryName n)
    (hfile : at? names (.folder entries) = some (.file content)) :
    top.locate (FilePath.join root (FilePath.ofNames names)) = .ok (place ++ names) := by
  obtain ⟨left, hleft⟩ := locate_join hroot hfolder hne hnames
  rw [hleft]
  apply walk_names hne
  rw [at?_append, hfolder, Option.bind_some, hfile]

/-- A path to an entry of the folder that is a file leads to this file. -/
theorem find_join_of_file {n : RawName} (hname : FilePath.IsEntryName n)
    (hfile : entries.lookup n = some (.file content)) :
    top.find (FilePath.join root n) = .ok (.file content) := by
  have hat : at? [n] (.folder entries) = some (.file content) := by
    show (entries.lookup n).bind (at? []) = _
    rw [hfile]
    rfl
  have hlocate := locate_join_of_file hroot hfolder (List.cons_ne_nil n [])
    (List.forall_mem_singleton.2 hname) hat
  rw [FilePath.ofNames_singleton] at hlocate
  rw [find, hlocate]
  simp only [at?_append, hfolder, Option.bind_some, hat]

/-- A path to no entry of the folder leads nowhere. -/
theorem find_join_of_none {n : RawName} (hname : FilePath.IsEntryName n)
    (hnone : entries.lookup n = none) : top.find (FilePath.join root n) = .error .notFound := by
  obtain ⟨left, hlocate⟩ := locate_join hroot hfolder (List.cons_ne_nil n [])
    (List.forall_mem_singleton.2 hname)
  have hat : at? (place ++ [n]) top = none := by
    rw [at?_append, hfolder, Option.bind_some]
    show (entries.lookup n).bind (at? []) = _
    rw [hnone]
    rfl
  rw [FilePath.ofNames_singleton, List.map_singleton, walk, hat] at hlocate
  rw [find, hlocate]
  rfl

/-- Without links below the folder, a path through names leads only to what they name. -/
theorem eq_of_locate_join (hne : names ≠ []) (hnames : ∀ n ∈ names, FilePath.IsEntryName n)
    (hlinks : ∀ ns target, at? ns (.folder entries) ≠ some (.link target))
    (hlocate : top.locate (FilePath.join root (FilePath.ofNames names)) = .ok (place ++ names')) :
    names' = names := by
  obtain ⟨left, hleft⟩ := locate_join hroot hfolder hne hnames
  rw [hleft] at hlocate
  have hlinks' : ∀ ns target, at? (place ++ ns) top ≠ some (.link target) := fun ns target => by
    rw [at?_append, hfolder]
    exact hlinks ns target
  exact List.append_cancel_left (eq_of_walk_names hlinks' hlocate)

end Below

/-- A folder right at the top is found under its name. -/
theorem locate_name {n : RawName} (hname : FilePath.IsEntryName n)
    (hentry : top.entries.lookup n = some (.folder entries)) :
    top.locate n = .ok [n] ∧ at? [n] top = some (.folder entries) := by
  have hat : at? ([] ++ [n]) top = some (.folder entries) := at?_cons_of_lookup hentry []
  refine ⟨?_, hat⟩
  rw [locate, hname.components, walk_folder hat, walk]
  rfl

end CodeIndex.FileTree

namespace CodeIndex

/-! ## §5 Contents of text files -/

/-- The octets of a text are read as the text. -/
theorem FileContent.text_octets (s : String) : (octets s.toUTF8).text = .ok s := by
  unfold text bytes String.fromUTF8?
  rw [String.toUTF8_eq_toByteArray, dif_pos s.isValidUTF8]
  rfl

namespace Sample

/-- A file of one line. -/
def content : FileContent := .octets "x = 1\n".toUTF8

/-- A second file of one line. -/
def otherContent : FileContent := .octets "y = 2\n".toUTF8

/-- The checksums of the files are different, and neither is that of an empty file. -/
theorem nodup_checksums :
    [Checksum.empty, content.checksum, otherContent.checksum].Nodup := by
  decide +kernel

theorem checksum_ne_empty : content.checksum ≠ Checksum.empty := by
  have h := nodup_checksums
  simp only [List.nodup_cons, List.mem_cons, not_or] at h
  exact Ne.symm h.1.1

theorem otherChecksum_ne_empty : otherContent.checksum ≠ Checksum.empty := by
  have h := nodup_checksums
  simp only [List.nodup_cons, List.mem_cons, not_or] at h
  exact Ne.symm h.1.2.1

theorem checksum_ne_otherChecksum : content.checksum ≠ otherContent.checksum := by
  have h := nodup_checksums
  simp only [List.nodup_cons, List.mem_cons, not_or] at h
  exact h.2.1.1

end Sample

end CodeIndex
