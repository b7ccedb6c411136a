import CodeIndex.Proofs.FileTree

/-!
# Trees listed in another order

The system lists the entries of a folder in any order it likes.  `FileTree.Relisted` relates trees
that are the same but for that; names lead to the same files in both, because no folder has two
entries of one name.
-/

namespace CodeIndex.FileTree

variable {entries entries' : List (RawName × FileTree)} {t t' : FileTree} {content : FileContent}

/-! ## §1 Names on the way -/

/-- All names in a tree have a property. -/
inductive EveryName (P : RawName → Prop) : FileTree → Prop where
  | file (content : FileContent) : EveryName P (.file content)
  | link (target : RawPath) : EveryName P (.link target)
  | folder {entries : List (RawName × FileTree)} (named : ∀ e ∈ entries, P e.1)
      (below : ∀ e ∈ entries, EveryName P e.2) : EveryName P (.folder entries)

/-- In a well named tree every name is that of an entry. -/
theorem WellNamed.everyName (h : t.WellNamed) : EveryName FilePath.IsEntryName t := by
  induction h with
  | file content => exact .file content
  | link target => exact .link target
  | folder _ named _ ih => exact .folder named ih

/-- All names on the way to something have the property. -/
theorem EveryName.of_at? {P : RawName → Prop} {names : List RawName} (h : EveryName P t)
    (hat : at? names t = some t') : ∀ n ∈ names, P n := by
  induction names generalizing t with
  | nil => simp
  | cons n names ih =>
    obtain ⟨s, hlookup, hrest⟩ := Option.bind_eq_some_iff.1 hat
    have hmem := mem_of_lookup hlookup
    cases h with
    | file | link => cases hmem
    | folder named below =>
      exact List.forall_mem_cons.2 ⟨named _ hmem, ih (below _ hmem) hrest⟩

/-! ## §2 The order of entries -/

/-- The trees are the same, except that folders may list their entries in another order. -/
inductive Relisted : FileTree → FileTree → Prop where
  | refl (t : FileTree) : Relisted t t
  | trans {t u v : FileTree} (first : Relisted t u) (second : Relisted u v) : Relisted t v
  /-- A folder lists its entries in another order. -/
  | shuffled {entries entries' : List (RawName × FileTree)} (perm : entries.Perm entries') :
      Relisted (.folder entries) (.folder entries')
  /-- Something below an entry is listed in another order. -/
  | within (front back : List (RawName × FileTree)) (name : RawName) {t t' : FileTree}
      (below : Relisted t t') :
      Relisted (.folder (front ++ (name, t) :: back)) (.folder (front ++ (name, t') :: back))

/-- Listing entries in another order keeps names as they are. -/
theorem WellNamed.relisted (hnamed : t.WellNamed) (h : Relisted t t') : t'.WellNamed := by
  induction h with
  | refl => exact hnamed
  | trans _ _ ih ih' => exact ih' (ih hnamed)
  | shuffled hperm =>
    obtain ⟨distinct, named, below⟩ := wellNamed_folder.1 hnamed
    exact .folder ((hperm.map Prod.fst).nodup_iff.1 distinct)
      (fun e he => named e (hperm.mem_iff.2 he)) fun e he => below e (hperm.mem_iff.2 he)
  | within front back name _ ih =>
    obtain ⟨distinct, named, below⟩ := wellNamed_folder.1 hnamed
    simp only [List.forall_mem_append, List.forall_mem_cons] at named below
    obtain ⟨hfront, hentry, hback⟩ := below
    -- only the tree below one entry is another, and that is well named again
    refine wellNamed_folder.2 ⟨by simpa using distinct, ?_, ?_⟩
    · simpa only [List.forall_mem_append, List.forall_mem_cons] using named
    · simp only [List.forall_mem_append, List.forall_mem_cons]
      exact ⟨hfront, ih hentry, hback⟩

/-- Names lead to the same files, however folders list their entries. -/
theorem Relisted.at?_eq_file_iff (h : Relisted t t') (hnamed : t.WellNamed)
    (names : List RawName) :
    at? names t' = some (.file content) ↔ at? names t = some (.file content) := by
  -- by what was listed in another order; a path of no names leads to no file, since both are
  -- folders
  induction h generalizing names with
  | refl => exact Iff.rfl
  | trans first _ ih ih' => exact (ih' (hnamed.relisted first) names).trans (ih hnamed names)
  | shuffled hperm =>
    cases names with
    | nil => simp [at?]
    | cons n names =>
      rw [at?, at?, FileTree.entries, FileTree.entries,
        lookup_eq_of_perm hperm (wellNamed_folder.1 hnamed).1 n]
  | @within front back name u u' _ ih =>
    cases names with
    | nil => simp [at?]
    | cons n names =>
      have hbelow := ih (hnamed.of_mem (e := (name, u)) (by simp)) names
      simp only [at?, FileTree.entries, List.lookup_append, List.lookup_cons]
      -- the name is that of an entry in front, of this entry, or of one behind it
      cases front.lookup n with
      | some s => rfl
      | none =>
        cases n == name with
        | true => exact hbelow
        | false => rfl

end CodeIndex.FileTree
