import CodeIndex.FilePath
import CodeIndex.Proofs.Text.Decoding

/-!
# Paths through names

A path of names below a folder is read back as the folder's steps and then those names.  A recorded
path, which is text, is such a path as well, only that each name in it is the encoding of what the
entry's name was read as: the name itself if that is UTF-8, and some other name if it is not.
-/

namespace CodeIndex.FilePath

variable {n : RawName} {names names' : List RawName} {root : RawPath}

/-! ## §1 Names -/

/-- A name that an entry of a folder can have. -/
structure IsEntryName (n : RawName) : Prop where
  ne_nil : n ≠ []
  ne_dot : n ≠ [dot]
  ne_dots : n ≠ [dot, dot]
  no_slash : slash ∉ n

instance (n : RawName) : Decidable (IsEntryName n) :=
  decidable_of_iff (n ≠ [] ∧ n ≠ [dot] ∧ n ≠ [dot, dot] ∧ slash ∉ n)
    ⟨fun ⟨ne_nil, ne_dot, ne_dots, no_slash⟩ => ⟨ne_nil, ne_dot, ne_dots, no_slash⟩,
      fun ⟨ne_nil, ne_dot, ne_dots, no_slash⟩ => ⟨ne_nil, ne_dot, ne_dots, no_slash⟩⟩

/-- A name of an entry is a component of a path. -/
theorem IsEntryName.pieceComponent? (h : IsEntryName n) :
    FilePath.pieceComponent? n = some (.name n) := by
  simp [FilePath.pieceComponent?, h.ne_nil, h.ne_dot, h.ne_dots]

/-- The name that a record has for an entry. -/
def recordedName (n : RawName) : RawName := Text.octets (Text.decodeLossy n)

private theorem recordedName_eq_iff :
    recordedName n = n ↔ Text.IsUtf8 n := Text.octets_decodeLossy_iff

/-- No other name is recorded as one of ASCII characters. -/
theorem recordedName_eq_octets_iff {s : String} (hs : ∀ c ∈ s.toList, c.toNat < 128) :
    recordedName n = Text.octets s ↔ n = Text.octets s := by
  rw [recordedName, Text.octets_injective.eq_iff, Text.decodeLossy_eq_iff hs]

private theorem octets_dot : Text.octets "." = [dot] := by
  rw [Text.octets_eq]
  rfl

private theorem octets_dots : Text.octets ".." = [dot, dot] := by
  rw [Text.octets_eq]
  rfl

private theorem octets_slash : Text.octets "/" = [slash] := by
  rw [Text.octets_eq]
  rfl

/-- A text is the name of an entry if it is not empty, not a name for a folder on the way, and has
no slash. -/
theorem isEntryName_octets_iff {s : String} : IsEntryName (Text.octets s) ↔
    s ≠ "" ∧ s ≠ "." ∧ s ≠ ".." ∧ '/' ∉ s.toList := by
  have hslash : slash ∈ Text.octets s ↔ '/' ∈ s.toList := Text.mem_octets (by decide) rfl
  have hname : ∀ t, Text.octets s ≠ Text.octets t ↔ s ≠ t := fun t => Text.octets_injective.ne_iff
  rw [← hslash, ← hname "", ← hname ".", ← hname "..", Text.octets_empty, octets_dot, octets_dots]
  exact ⟨fun ⟨ne_nil, ne_dot, ne_dots, no_slash⟩ => ⟨ne_nil, ne_dot, ne_dots, no_slash⟩,
    fun ⟨ne_nil, ne_dot, ne_dots, no_slash⟩ => ⟨ne_nil, ne_dot, ne_dots, no_slash⟩⟩

/-- Entries are recorded under names that entries can have. -/
theorem IsEntryName.recorded (h : IsEntryName n) : IsEntryName (recordedName n) where
  -- reading with replacements never makes an ASCII text of something else
  ne_nil := by
    rw [← Text.octets_empty, ne_eq, recordedName_eq_octets_iff (by simp), Text.octets_empty]
    exact h.ne_nil
  ne_dot := by
    rw [← octets_dot, ne_eq, recordedName_eq_octets_iff (by simp), octets_dot]
    exact h.ne_dot
  ne_dots := by
    rw [← octets_dots, ne_eq, recordedName_eq_octets_iff (by simp), octets_dots]
    exact h.ne_dots
  no_slash := by
    have hslash : slash < 0x80 := by decide
    rw [recordedName, Text.mem_octets hslash (c := '/') rfl, Text.mem_decodeLossy hslash rfl]
    exact h.no_slash

/-- Recorded names are the octets of names as they are read. -/
theorem map_recordedName (names : List RawName) :
    names.map recordedName = (names.map Text.decodeLossy).map Text.octets := by
  rw [List.map_map]
  rfl

/-- Names are recorded as they are just if all of them are UTF-8. -/
theorem map_recordedName_eq_iff :
    names.map recordedName = names ↔ ∀ n ∈ names, Text.IsUtf8 n := by
  simp only [← recordedName_eq_iff]
  induction names with
  | nil => simp
  | cons n names ih => simp [ih]

/-! ## §2 Paths of names -/

/-- The path that goes through these names. -/
def ofNames (names : List RawName) : RawPath := [slash].intercalate names

/-- A path of one name is that name. -/
theorem ofNames_singleton (n : RawName) : ofNames [n] = n := by simp [ofNames]

private theorem splitOn_ofNames (hne : names ≠ []) (h : ∀ n ∈ names, IsEntryName n) :
    (ofNames names).splitOn slash = names :=
  List.splitOn_intercalate slash (fun n hn => (h n hn).no_slash) hne

/-- The octets of a recorded path are those of the recorded names. -/
theorem octets_joinNames (names : List RawName) :
    Text.octets (joinNames names) = ofNames (names.map recordedName) := by
  rw [joinNames, Text.octets_intercalate, octets_slash, List.map_map]
  rfl

/-- A path of names is a relative one. -/
theorem isAbsolute_ofNames (h : ∀ n ∈ names, IsEntryName n) :
    isAbsolute (ofNames names) = false := by
  cases names with
  | nil => rfl
  | cons n names =>
    obtain ⟨hn, -⟩ := List.forall_mem_cons.1 h
    obtain ⟨b, bs, rfl⟩ := List.exists_cons_of_ne_nil hn.ne_nil
    have hb : b ≠ slash := fun hb => hn.no_slash (by simp [hb])
    cases names <;> simp [ofNames, isAbsolute, hb]

/-- Different lists of names make different paths. -/
theorem ofNames_inj (hne : names ≠ []) (h : ∀ n ∈ names, IsEntryName n) (hne' : names' ≠ [])
    (h' : ∀ n ∈ names', IsEntryName n) : ofNames names = ofNames names' ↔ names = names' := by
  constructor
  · intro heq
    rw [← splitOn_ofNames hne h, heq, splitOn_ofNames hne' h']
  · rintro rfl
    rfl

/-- Recorded names are names of entries as well. -/
theorem forall_recorded (h : ∀ n ∈ names, IsEntryName n) :
    ∀ n ∈ names.map recordedName, IsEntryName n := by
  intro n hn
  obtain ⟨n, hmem, rfl⟩ := List.mem_map.1 hn
  exact (h n hmem).recorded

/-- Two paths are recorded alike exactly when their names are read alike. -/
theorem joinNames_inj (hne : names ≠ []) (h : ∀ n ∈ names, IsEntryName n) (hne' : names' ≠ [])
    (h' : ∀ n ∈ names', IsEntryName n) :
    joinNames names = joinNames names' ↔
      names.map Text.decodeLossy = names'.map Text.decodeLossy := by
  rw [← Text.octets_injective.eq_iff, octets_joinNames, octets_joinNames,
    ofNames_inj (by simpa using hne) (forall_recorded h) (by simpa using hne') (forall_recorded h'),
    map_recordedName, map_recordedName, (List.map_injective_iff.2 Text.octets_injective).eq_iff]

/-! ## §3 Paths below a folder -/

private theorem head?_splitOn_append (pieces : List RawName) :
    (root.splitOn slash ++ pieces).head? = (root.splitOn slash).head? :=
  List.head?_append_of_ne_nil _ (List.splitOn_ne_nil slash root)

/-- What follows a slash only adds the steps of its pieces. -/
theorem components_append_slash (root next : RawPath) :
    components (root ++ slash :: next) =
      components (root ++ [slash]) ++ (next.splitOn slash).filterMap pieceComponent? := by
  have habsolute : isAbsolute (root ++ slash :: next) = isAbsolute (root ++ [slash]) := by
    cases root <;> rfl
  have hlast : [([] : RawName)].filterMap pieceComponent? = [] := rfl
  simp only [components, List.splitOn_append_cons_self, head?_splitOn_append, habsolute,
    List.filterMap_append, List.splitOn_nil, hlast, List.append_nil, List.append_assoc]

/-- A slash at the end adds no step. -/
theorem components_slash (hroot : root ≠ []) : components (root ++ [slash]) = components root := by
  have habsolute : isAbsolute (root ++ [slash]) = isAbsolute root := by
    rw [isAbsolute, isAbsolute, List.head?_append_of_ne_nil _ hroot]
  have hlast : [([] : RawName)].filterMap pieceComponent? = [] := rfl
  simp only [components, List.splitOn_append_cons_self, head?_splitOn_append, habsolute,
    List.filterMap_append, List.splitOn_nil, hlast, List.append_nil]

private theorem filterMap_pieceComponent? (h : ∀ n ∈ names, IsEntryName n) :
    names.filterMap pieceComponent? = names.map .name := by
  rw [← List.filterMap_eq_map]
  exact List.filterMap_congr fun n hn => (h n hn).pieceComponent?

private theorem components_ofNames (hne : names ≠ []) (h : ∀ n ∈ names, IsEntryName n) :
    components (ofNames names) = names.map .name := by
  have hstart : names.head? ≠ some [dot] := fun hdot =>
    (h _ (List.mem_of_head? hdot)).ne_dot rfl
  rw [components, isAbsolute_ofNames h, splitOn_ofNames hne h, if_neg Bool.false_ne_true,
    if_neg hstart, filterMap_pieceComponent? h]
  rfl

/-- The name of an entry is one step. -/
theorem IsEntryName.components (h : IsEntryName n) : FilePath.components n = [.name n] := by
  have hsingle := components_ofNames (List.cons_ne_nil n []) (List.forall_mem_singleton.2 h)
  rw [ofNames_singleton] at hsingle
  exact hsingle

/-- The steps of a path below a folder. -/
theorem components_join (hne : names ≠ []) (h : ∀ n ∈ names, IsEntryName n) :
    components (join root (ofNames names)) = components root ++ names.map .name := by
  rw [join, isAbsolute_ofNames h, if_neg Bool.false_ne_true]
  -- the folder's path may be empty, or end in a slash, or need one
  by_cases hroot : root = []
  · rw [if_pos (.inl hroot), hroot, List.nil_append, components_ofNames hne h]
    rfl
  by_cases hslash : root.getLast? = some slash
  · obtain ⟨front, rfl⟩ := List.getLast?_eq_some_iff.1 hslash
    rw [if_pos (.inr hslash), List.append_assoc, List.singleton_append, components_append_slash,
      splitOn_ofNames hne h, filterMap_pieceComponent? h]
  · rw [if_neg (by simp [hroot, hslash]), components_append_slash, components_slash hroot,
      splitOn_ofNames hne h, filterMap_pieceComponent? h]

end CodeIndex.FilePath
