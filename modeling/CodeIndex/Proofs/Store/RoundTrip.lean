import CodeIndex.Proofs.Json.Strings
import CodeIndex.Store.Codec

/-!
# Reading back what was written

A snapshot that was written to a database is read back as it was, down to the octets of its vectors.
Two things do not survive the trip, the model of a snapshot without rows and the repetition of an
incomplete file: `Snapshot.readSnapshot_toDatabase_eq` says what is read instead, and
`Snapshot.readSnapshot_toDatabase` is for snapshots that have neither.
-/

namespace CodeIndex

/-! ## §1 Vectors -/

/-- The four octets of a number, put together again. -/
theorem Single.ofOctets_shiftRight (bits : UInt32) :
    Single.ofOctets bits.toUInt8 (bits >>> 8).toUInt8 (bits >>> 16).toUInt8 (bits >>> 24).toUInt8 =
      ⟨bits⟩ := by
  unfold ofOctets
  congr 1
  apply UInt32.eq_of_toBitVec_eq
  ext i hi
  have h8 : (8#32 % 32 : BitVec 32) = 8#32 := by decide
  have h16 : (16#32 % 32 : BitVec 32) = 16#32 := by decide
  have h24 : (24#32 % 32 : BitVec 32) = 24#32 := by decide
  simp only [UInt32.toBitVec_or, UInt32.toBitVec_shiftLeft, UInt8.toBitVec_toUInt32,
    UInt32.toBitVec_toUInt8, UInt32.toBitVec_shiftRight, UInt32.toBitVec_ofNat, h8, h16, h24,
    BitVec.shiftLeft_eq', BitVec.ushiftRight_eq', BitVec.toNat_ofNat, BitVec.getElem_or,
    BitVec.getElem_shiftLeft, BitVec.getElem_setWidth, BitVec.getLsbD_setWidth,
    BitVec.getLsbD_ushiftRight, Nat.reducePow, Nat.reduceMod]
  rw [← BitVec.getLsbD_eq_getElem]
  -- bit `i` comes from the octet that it lies in
  rcases Nat.lt_or_ge i 8 with h | h
  · simp [h, show i < 16 by omega, show i < 24 by omega]
  rcases Nat.lt_or_ge i 16 with h' | h'
  · simp [show ¬ i < 8 by omega, h', show i < 24 by omega, show i - 8 < 8 by omega,
      Nat.add_sub_cancel' h]
  rcases Nat.lt_or_ge i 24 with h'' | h''
  · simp [show ¬ i < 8 by omega, show ¬ i < 16 by omega, h'', show ¬ i - 8 < 8 by omega,
      show i - 16 < 8 by omega, Nat.add_sub_cancel' h']
  · simp [show ¬ i < 8 by omega, show ¬ i < 16 by omega, show ¬ i < 24 by omega,
      show ¬ i - 8 < 8 by omega, show ¬ i - 16 < 8 by omega, show i - 24 < 8 by omega,
      Nat.add_sub_cancel' h'']

/-- A vector is read back from its octets, bit by bit. -/
theorem Embedding.ofOctets_toOctets (v : Embedding) : Embedding.ofOctets v.toOctets = v := by
  induction v with
  | nil => rfl
  | cons x v ih =>
    obtain ⟨bits⟩ := x
    have hcons : Embedding.toOctets (⟨bits⟩ :: v) =
        bits.toUInt8 :: (bits >>> 8).toUInt8 :: (bits >>> 16).toUInt8 :: (bits >>> 24).toUInt8 ::
          Embedding.toOctets v := by
      simp [Embedding.toOctets, Single.toOctets]
    rw [hcons, Embedding.ofOctets, Single.ofOctets_shiftRight, ih]

/-! ## §2 Cells -/

section Cells

variable (s : String) (o : Option String)

@[simp] theorem Cell.asText_text : (Cell.text s).asText = .ok s := rfl

/-- A value that may be missing is read as it was stored. -/
theorem Cell.asOptionalText_textCell : (Snapshot.textCell o).asOptionalText = .ok o := by
  cases o <;> rfl

private theorem Cell.asOptionalOctets_embeddingCell (v : Option Embedding) :
    (Snapshot.embeddingCell v).asOptionalOctets = .ok (v.map Embedding.toOctets) := by
  cases v <;> rfl

private theorem signatureOfText_writeStrings (signature : Option (List String)) :
    signatureOfText (signature.map fun items => String.ofList (Json.writeStrings items)) =
      .ok signature := by
  cases signature with
  | none => rfl
  | some items =>
    simp only [Option.map_some, signatureOfText, Json.ofText?_writeStrings, Option.bind_some,
      Json.asStrings?_map_ofString]

private theorem Affinity.ofDeclaredType_text : Affinity.ofDeclaredType "TEXT" = .text := by decide

private theorem Affinity.ofDeclaredType_blob : Affinity.ofDeclaredType "BLOB" = .blob := by decide

private theorem Affinity.store_text_textCell :
    Affinity.store .text (Snapshot.textCell o) = Snapshot.textCell o := by
  cases o <;> rfl

private theorem Affinity.store_text_text : Affinity.store .text (.text s) = .text s := rfl

private theorem Affinity.store_blob (c : Cell) : Affinity.store .blob c = c := by
  cases c <;> rfl

/-- A text is the same as itself to every collation. -/
theorem Collation.same_self (collation : Collation) : collation.same s s = true := by
  cases collation <;> exact beq_self_eq_true _

/-- A cell is the same as itself to every collation. -/
theorem Cell.same_self (collation : Collation) (c : Cell) : Cell.same collation c c = true := by
  cases c with
  | text s => exact collation.same_self s
  | null => exact beq_self_eq_true _
  | integer n => exact beq_self_eq_true _
  | real => exact beq_self_eq_true _
  | blob bytes => exact beq_self_eq_true _

end Cells

/-! ## §3 Tables -/

/-- The cells of a row as a table holds them. -/
def Table.stored (t : Table) (row : List Cell) : List Cell :=
  (t.columns.zip row).map fun (c, cell) => (Affinity.ofDeclaredType c.declaredType).store cell

private theorem Table.insert_foldl (t : Table) (rows : List (List Cell)) :
    rows.foldl Table.insert t = { t with rows := t.rows ++ rows.map t.stored } := by
  induction rows generalizing t with
  | nil => simp
  | cons row rows ih =>
    rw [List.foldl_cons, ih]
    simp [Table.insert, Table.stored]

namespace Snapshot

/-- The table of units as it is stored. -/
def storedUnits (s : Snapshot) : Table :=
  { Table.empty unitTable unitColumns with rows := s.rows.map (rowCells s.model) }

/-- The table of incomplete files as it is stored. -/
def storedIncomplete (s : Snapshot) : Table :=
  { Table.empty incompleteTable incompleteColumns with
    rows := s.incomplete.map fun (p, c) => [Cell.text p, Cell.text c] }

/-- No cell of a row changes when it is stored. -/
theorem stored_rowCells (model : Option String) (r : SnapshotRow) :
    (Table.empty unitTable unitColumns).stored (rowCells model r) = rowCells model r := by
  simp only [Table.stored, Table.empty, unitColumns, rowCells, List.zip_cons_cons,
    List.zip_nil_right, List.map_cons, List.map_nil, Column.plain, Affinity.ofDeclaredType_text,
    Affinity.ofDeclaredType_blob, signatureCell, Affinity.store_text_textCell,
    Affinity.store_text_text, Affinity.store_blob]

private theorem stored_incomplete (p c : String) :
    (Table.empty incompleteTable incompleteColumns).stored [.text p, .text c] =
      [.text p, .text c] := by
  simp only [Table.stored, Table.empty, incompleteColumns, List.zip_cons_cons, List.zip_nil_right,
    List.map_cons, List.map_nil, Column.plain, Affinity.ofDeclaredType_text,
    Affinity.store_text_text]

/-- A stored snapshot holds the cells of its rows and nothing else. -/
theorem toDatabase_eq (s : Snapshot) : s.toDatabase = [s.storedUnits, s.storedIncomplete] := by
  -- no affinity changes a value that is stored in its column
  have hunits : (s.rows.map (rowCells s.model)).map (Table.empty unitTable unitColumns).stored =
      s.rows.map (rowCells s.model) := by
    rw [List.map_map]
    exact List.map_congr_left fun r _ => stored_rowCells s.model r
  have hincomplete : (s.incomplete.map fun (p, c) => [Cell.text p, Cell.text c]).map
      (Table.empty incompleteTable incompleteColumns).stored =
      s.incomplete.map fun (p, c) => [Cell.text p, Cell.text c] := by
    rw [List.map_map]
    exact List.map_congr_left fun key _ => stored_incomplete key.1 key.2
  unfold toDatabase
  rw [Table.insert_foldl, Table.insert_foldl, hunits, hincomplete]
  rfl

end Snapshot

/-! ## §4 Reading -/

/-- What follows a success goes on with its value. -/
theorem ok_bind {α β ε : Type} (a : α) (f : α → Except ε β) : (Except.ok a >>= f) = f a :=
  rfl

/-- Reading each of a list of written values gives the list. -/
theorem mapM_map_eq_ok {α β ε : Type} {f : α → Except ε β} {g : β → α}
    (h : ∀ b, f (g b) = .ok b) (bs : List β) : (bs.map g).mapM f = .ok bs := by
  induction bs with
  | nil => rfl
  | cons b bs ih =>
    rw [List.map_cons, List.mapM_cons, h, ih]
    rfl

private theorem eraseDups_of_nodup {α : Type} [BEq α] [LawfulBEq α] {xs : List α} (h : xs.Nodup) :
    xs.eraseDups = xs := by
  induction xs with
  | nil => rfl
  | cons x xs ih =>
    rw [List.nodup_cons] at h
    -- no later element equals the first
    have hrest : xs.filter (fun a => !a == x) = xs := by
      refine List.filter_eq_self.2 fun a ha => ?_
      simp only [Bool.not_eq_true', beq_eq_false_iff_ne]
      rintro rfl
      exact h.1 ha
    rw [List.eraseDups_cons, hrest, ih h.2]

/-- What is left is there once. -/
theorem nodup_eraseDups {α : Type} [BEq α] [LawfulBEq α] (xs : List α) : xs.eraseDups.Nodup := by
  -- erasing shortens the rest of the list, so the induction is on the length
  induction hlength : xs.length using Nat.strongRecOn generalizing xs with
  | ind n ih =>
    cases xs with
    | nil => exact List.nodup_nil
    | cons x xs =>
      have hshorter : (xs.filter fun a => !a == x).length < n := by
        rw [← hlength]
        exact Nat.lt_succ_of_le (List.length_filter_le _ _)
      rw [List.eraseDups_cons, List.nodup_cons]
      refine ⟨?_, ih _ hshorter _ rfl⟩
      simp [List.mem_eraseDups]

private theorem eraseDupsBy_eq_nil_iff {α : Type} {r : α → α → Bool} {xs : List α} :
    xs.eraseDupsBy r = [] ↔ xs = [] := by
  cases xs with
  | nil => exact ⟨fun _ => rfl, fun _ => rfl⟩
  | cons x xs => simp [List.eraseDupsBy_cons]

/-- One value is left just if it is the first and all are equal to it. -/
theorem eraseDupsBy_eq_singleton_iff {α : Type} {r : α → α → Bool} (hrefl : ∀ a, r a a = true)
    {xs : List α} {x : α} :
    xs.eraseDupsBy r = [x] ↔ xs.head? = some x ∧ ∀ a ∈ xs, r a x = true := by
  cases xs with
  | nil => exact ⟨nofun, nofun⟩
  | cons y ys =>
    -- the first one is always kept, and all others have to be the same
    rw [List.eraseDupsBy_cons, List.cons_eq_cons, eraseDupsBy_eq_nil_iff, List.filter_eq_nil_iff,
      List.head?_cons, Option.some_inj, List.forall_mem_cons]
    constructor
    · rintro ⟨rfl, hrest⟩
      exact ⟨rfl, hrefl y, fun a ha => by simpa using hrest a ha⟩
    · rintro ⟨rfl, _, hrest⟩
      exact ⟨rfl, fun a ha => by simp [hrest a ha]⟩

namespace Snapshot

/-- What a stored row holds in each column. -/
theorem required_rowCells (s : Snapshot) (r : SnapshotRow) :
    let cell := Database.required s.storedUnits (rowCells s.model r)
    cell "filepath" = .text r.filepath ∧ cell "file_checksum" = .text r.checksum ∧
      cell "unit_kind" = .text r.unit.kind.name ∧ cell "name" = textCell r.unit.name ∧
      cell "enclosing_class_name" = textCell r.unit.enclosingClass ∧
      cell "source_text" = .text r.unit.sourceText ∧
      cell "summary_text" = textCell r.unit.summaryText ∧
      cell "input_signature" = signatureCell r.unit.inputSignature ∧
      cell "output_signature" = signatureCell r.unit.outputSignature ∧
      cell "embedding_vector" = embeddingCell r.unit.embedding ∧
      cell modelColumn = textCell s.model :=
  ⟨rfl, rfl, rfl, rfl, rfl, rfl, rfl, rfl, rfl, rfl, rfl⟩

private theorem readRow_rowCells (s : Snapshot) (r : SnapshotRow) :
    Database.readRow s.storedUnits (rowCells s.model r) = .ok r := by
  obtain ⟨hpath, hchecksum, hkind, hname, hclass, hsource, hsummary, hinput, houtput, hvector, _⟩ :=
    required_rowCells s r
  -- a vector comes back from its octets
  have hembedding :
      (r.unit.embedding.map Embedding.toOctets).map Embedding.ofOctets = r.unit.embedding := by
    cases r.unit.embedding with
    | none => rfl
    | some v => rw [Option.map_some, Option.map_some, Embedding.ofOctets_toOctets]
  unfold Database.readRow
  simp only [hpath, hchecksum, hkind, hname, hclass, hsource, hsummary, hinput, houtput, hvector,
    signatureCell, Cell.asText_text, Cell.asOptionalText_textCell,
    Cell.asOptionalOctets_embeddingCell, UnitKind.ofName?_name, signatureOfText_writeStrings,
    ok_bind]
  rw [hembedding]
  rfl

/-- The model is on every row, so a snapshot without rows has none to read. -/
theorem readModel_storedUnits (s : Snapshot) :
    Database.readModel s.storedUnits = .ok (if s.rows = [] then none else s.model) := by
  have hcells : (s.storedUnits.rows.map fun row =>
      Database.required s.storedUnits row modelColumn) = s.rows.map fun _ => textCell s.model := by
    show (s.rows.map _).map _ = _
    rw [List.map_map]
    rfl
  have hcollation : s.storedUnits.collationOf modelColumn = .binary := rfl
  unfold Database.readModel Database.distinctCells
  rw [hcells, hcollation, if_neg (by decide)]
  cases s.rows with
  | nil => rfl
  | cons r rows =>
    -- the same cell on every row
    have hdistinct : ((r :: rows).map fun _ => textCell s.model).eraseDupsBy (Cell.same .binary) =
        [textCell s.model] := by
      refine (eraseDupsBy_eq_singleton_iff (Cell.same_self .binary)).2 ⟨rfl, fun a ha => ?_⟩
      obtain ⟨_, _, rfl⟩ := List.mem_map.1 ha
      exact Cell.same_self ..
    rw [hdistinct, List.mapM_cons, Cell.asOptionalText_textCell]
    rfl

private theorem readIncomplete_stored (s : Snapshot) :
    Database.readIncomplete [s.storedUnits, s.storedIncomplete] = .ok s.incomplete.eraseDups := by
  have hfind : [s.storedUnits, s.storedIncomplete].find? (fun t => t.name == incompleteTable) =
      some s.storedIncomplete := by
    rfl
  -- the columns do not depend on the rows, so an empty table decides this
  have hcolumns : (s.storedIncomplete.columnNames.any (sameIgnoringCase "filepath") &&
      s.storedIncomplete.columnNames.any (sameIgnoringCase "file_checksum")) = true := by
    show ((Table.empty incompleteTable incompleteColumns).columnNames.any
        (sameIgnoringCase "filepath") &&
      (Table.empty incompleteTable incompleteColumns).columnNames.any
        (sameIgnoringCase "file_checksum")) = true
    decide
  have hrows : s.storedIncomplete.rows.mapM (Database.readIncompleteRow s.storedIncomplete) =
      .ok s.incomplete :=
    mapM_map_eq_ok (g := fun key : FileKey => [Cell.text key.1, Cell.text key.2]) (fun _ => rfl) _
  unfold Database.readIncomplete
  simp only [hfind]
  rw [if_pos hcolumns, hrows]
  rfl

/-- What is read of a stored snapshot, whatever it was. -/
theorem readSnapshot_toDatabase_eq (s : Snapshot) : s.toDatabase.readSnapshot =
    .ok ⟨s.rows, if s.rows = [] then none else s.model, s.incomplete.eraseDups⟩ := by
  have htable : Database.table? [s.storedUnits, s.storedIncomplete] unitTable =
      some s.storedUnits := by
    unfold Database.table?
    rw [List.find?_cons_of_pos]
    show sameIgnoringCase unitTable unitTable = true
    decide
  have hmissing : Database.missingColumns s.storedUnits = [] := by
    show Database.missingColumns (.empty unitTable unitColumns) = []
    decide
  have hcolumn : s.storedUnits.listedNames.contains modelColumn = true := by
    show (Table.empty unitTable unitColumns).listedNames.contains modelColumn = true
    decide
  have hrows : Database.readRows s.storedUnits = .ok s.rows :=
    mapM_map_eq_ok (readRow_rowCells s) s.rows
  -- every check that the reader makes passes, and each part is read back
  rw [toDatabase_eq, Database.readSnapshot, htable]
  simp only [hmissing, hrows, ok_bind, hcolumn, if_true, readModel_storedUnits,
    readIncomplete_stored]
  rfl

/-- A stored snapshot is read back as it was. -/
theorem readSnapshot_toDatabase (s : Snapshot) (hmodel : s.rows = [] → s.model = none)
    (hincomplete : s.incomplete.Nodup) : s.toDatabase.readSnapshot = .ok s := by
  have hsame : (if s.rows = [] then none else s.model) = s.model := by
    split
    · next hrows => exact (hmodel hrows).symm
    · rfl
  rw [readSnapshot_toDatabase_eq, hsame, eraseDups_of_nodup hincomplete]

end Snapshot

end CodeIndex
