import CodeIndex.Proofs.Store.RoundTrip
import CodeIndex.Store.Session

/-!
# What a connection changes

To read a database file is to connect to it, and a connection puts the file into rollback mode.
That happens to a file in write-ahead mode alone, whose tables stay as they are, so that nobody who
reads the file can tell; a second connection changes nothing more.  A reading that fails has
connected or has not: `Disk.read_cases`.
-/

namespace CodeIndex

/-! ## §1 Headers -/

namespace DatabaseHeader

variable {file file' : Text.Octets}

private theorem length_of_isBlank (h : isBlank file = true) : 512 ≤ file.length := by
  simp only [isBlank, Bool.and_eq_true, beq_iff_eq, List.contains_iff_mem, List.mem_cons,
    List.not_mem_nil, or_false] at h
  omega

private theorem numberAt_congr {i n : Nat}
    (h : ∀ k < n, octetAt file (i + k) = octetAt file' (i + k)) :
    numberAt file i n = numberAt file' i n := by
  induction n with
  | zero => rfl
  | succ n ih =>
    unfold numberAt
    rw [ih fun k hk => h k (Nat.lt_succ_of_lt hk), h n (Nat.lt_succ_self n)]

private theorem octetAt_mapIdx (f : Nat → UInt8 → UInt8) {i : Nat} (hi : i < file.length) :
    octetAt (file.mapIdx f) i = f i (octetAt file i) := by
  unfold octetAt
  rw [List.getD_eq_getElem?_getD, List.getD_eq_getElem?_getD, List.getElem?_mapIdx,
    List.getElem?_eq_getElem hi]
  rfl

/-- The places that rollback mode leaves alone. -/
def Kept (i : Nat) : Prop := i < 18 ∨ 20 ≤ i ∧ i < 24 ∨ 28 ≤ i ∧ i < 92 ∨ 100 ≤ i ∧ i < 512

private theorem octetAt_of_kept (h : isBlank file = true) {i : Nat} (hkept : Kept i) :
    octetAt (file.mapIdx (rollbackOctet file)) i = octetAt file i := by
  have hlength := length_of_isBlank h
  unfold Kept at hkept
  rw [octetAt_mapIdx _ (by omega)]
  unfold rollbackOctet
  simp only
  rw [if_neg (by omega), if_neg (by omega), if_neg (by omega), if_neg (by omega)]

private theorem octetAt_mode (h : isBlank file = true) {i : Nat} (hi : i = 18 ∨ i = 19) :
    octetAt (file.mapIdx (rollbackOctet file)) i = 1 := by
  have hlength := length_of_isBlank h
  rw [octetAt_mapIdx _ (by omega)]
  exact if_pos hi

/-- What tells a database file from other octets is not what rollback mode changes. -/
theorem isBlank_mapIdx (h : isBlank file = true) :
    isBlank (file.mapIdx (rollbackOctet file)) = true := by
  have hnumber : ∀ i n, (∀ k < n, Kept (i + k)) →
      numberAt (file.mapIdx (rollbackOctet file)) i n = numberAt file i n :=
    fun i n hkept => numberAt_congr fun k hk => octetAt_of_kept h (hkept k hk)
  have hsize : pageSize (file.mapIdx (rollbackOctet file)) = pageSize file := by
    unfold pageSize
    rw [hnumber 16 2 fun k hk => .inl (by omega)]
  have hmagic : (List.range 16).all (fun i =>
      octetAt (file.mapIdx (rollbackOctet file)) i == octetAt magic i) =
        (List.range 16).all fun i => octetAt file i == octetAt magic i := by
    rw [Bool.eq_iff_iff, List.all_eq_true, List.all_eq_true]
    refine forall₂_congr fun i hi => ?_
    rw [octetAt_of_kept h (.inl (Nat.lt_of_lt_of_le (List.mem_range.1 hi) (by decide)))]
  -- the octets of the mode read one afterwards, which the header allows
  have hmode : octetAt (file.mapIdx (rollbackOctet file)) 18 = 1 := octetAt_mode h (.inl rfl)
  have hmode' : octetAt (file.mapIdx (rollbackOctet file)) 19 = 1 := octetAt_mode h (.inr rfl)
  have hkept : ∀ i, Kept i → octetAt (file.mapIdx (rollbackOctet file)) i = octetAt file i :=
    fun i => octetAt_of_kept h
  unfold isBlank at h ⊢
  rw [List.length_mapIdx, hsize, hmagic, hmode, hmode', hkept 21 (by unfold Kept; omega),
    hkept 22 (by unfold Kept; omega), hkept 23 (by unfold Kept; omega),
    hkept 100 (by unfold Kept; omega), hnumber 28 4 fun k hk => by unfold Kept; omega,
    hnumber 44 4 fun k hk => by unfold Kept; omega, hnumber 103 2 fun k hk => by unfold Kept; omega]
  simp only [Bool.and_eq_true] at h ⊢
  simp only [h, beq_self_eq_true, Bool.true_or, and_self]

/-- Whether there is a database in a file is not for the mode to say. -/
@[simp] theorem isBlank_inRollbackMode (file : Text.Octets) :
    isBlank (inRollbackMode file) = isBlank file := by
  unfold inRollbackMode
  split
  · next h => rw [isBlank_mapIdx h.1, h.1]
  · rfl

/-- The file keeps its length. -/
@[simp] theorem length_inRollbackMode (file : Text.Octets) :
    (inRollbackMode file).length = file.length := by
  unfold inRollbackMode
  split
  · exact List.length_mapIdx
  · rfl

private theorem mode_inRollbackMode (h : isBlank file = true) :
    mode (inRollbackMode file) = .rollback := by
  unfold inRollbackMode
  split
  · unfold mode
    rw [octetAt_mode h (.inl rfl)]
    rfl
  · next hmode =>
    cases hcase : mode file with
    | rollback => rfl
    | writeAhead => exact absurd ⟨h, hcase⟩ hmode

end DatabaseHeader

/-! ## §2 Files -/

namespace FileContent

/-- No connection changes what a database holds. -/
@[simp] theorem database?_inRollbackMode (content : FileContent) :
    content.inRollbackMode.database? = content.database? := by
  cases content with
  | database db mode => rfl
  | octets bytes =>
    have hsize : (ByteArray.mk (DatabaseHeader.inRollbackMode bytes.data.toList).toArray).size =
        bytes.size := by
      show (DatabaseHeader.inRollbackMode bytes.data.toList).toArray.size = bytes.data.size
      rw [List.size_toArray, DatabaseHeader.length_inRollbackMode, Array.length_toList]
    unfold inRollbackMode database?
    simp only [hsize, DatabaseHeader.isBlank_inRollbackMode]

private theorem inRollbackMode_eq_self {content : FileContent} (h : content.isWriteAhead = false) :
    content.inRollbackMode = content := by
  cases content with
  | database db mode =>
    cases mode with
    | rollback => rfl
    | writeAhead => cases h
  | octets bytes =>
    have hsame : DatabaseHeader.inRollbackMode bytes.data.toList = bytes.data.toList := by
      -- a file with the octets of the mode set would be a database in that mode
      refine if_neg ?_
      rintro ⟨hblank, hmode⟩
      simp [isWriteAhead, hblank, hmode] at h
    show octets (ByteArray.mk (DatabaseHeader.inRollbackMode bytes.data.toList).toArray) = _
    rw [hsame]

/-- Afterwards no log has to be kept beside the file. -/
@[simp] theorem isWriteAhead_inRollbackMode (content : FileContent) :
    content.inRollbackMode.isWriteAhead = false := by
  cases content with
  | database db mode => rfl
  | octets bytes =>
    unfold inRollbackMode isWriteAhead
    simp only [DatabaseHeader.isBlank_inRollbackMode]
    cases hblank : DatabaseHeader.isBlank bytes.data.toList with
    | false => rfl
    | true => simp [DatabaseHeader.mode_inRollbackMode hblank]

end FileContent

namespace FileTree.Occupant

variable {o : Occupant}

@[simp] theorem exists?_inRollbackMode (o : Occupant) : o.inRollbackMode.exists? = o.exists? := by
  cases o <;> rfl

@[simp] theorem database_inRollbackMode (o : Occupant) :
    o.inRollbackMode.database = o.database := by
  cases o with
  | file content => simp only [inRollbackMode, database, FileContent.database?_inRollbackMode]
  | _ => rfl

/-- What is at the path stays a file, or nothing. -/
theorem inRollbackMode_file (h : o = .nothing ∨ ∃ content, o = .file content) :
    o.inRollbackMode = .nothing ∨ ∃ content, o.inRollbackMode = .file content := by
  rcases h with rfl | ⟨content, rfl⟩
  · exact .inl rfl
  · exact .inr ⟨_, rfl⟩

/-- What is read from a database does not depend on its mode. -/
theorem readSnapshot_database (db : Database) (mode : JournalMode) :
    (file (.database db mode)).readSnapshot = db.readSnapshot := rfl

/-- Nobody who reads a snapshot can tell whether somebody connected to it before. -/
@[simp] theorem readSnapshot_inRollbackMode (o : Occupant) :
    o.inRollbackMode.readSnapshot = o.readSnapshot := by
  unfold readSnapshot
  rw [exists?_inRollbackMode, database_inRollbackMode]

private theorem inRollbackMode_eq_self (h : o.isWriteAhead = false) : o.inRollbackMode = o := by
  cases o with
  | file content => exact congrArg file (FileContent.inRollbackMode_eq_self h)
  | _ => rfl

@[simp] theorem isWriteAhead_inRollbackMode (o : Occupant) :
    o.inRollbackMode.isWriteAhead = false := by
  cases o with
  | file content => exact content.isWriteAhead_inRollbackMode
  | _ => rfl

end FileTree.Occupant

/-! ## §3 Readings that fail and readings that do not -/

/-- The first is what the second is, or a failure. -/
def SameOrFailed {α : Type} (x y : Except IndexError α) : Prop := x = y ∨ ∃ e, x = .error e

namespace SameOrFailed

variable {α β : Type} {x y : Except IndexError α} {f g : α → Except IndexError β}

/-- Without a fault both are the same. -/
theorem refl (x : Except IndexError α) : SameOrFailed x x := .inl rfl

/-- What follows a step that may fail may fail in the same places. -/
theorem bind (h : SameOrFailed x y) (hfg : ∀ a, SameOrFailed (f a) (g a)) :
    SameOrFailed (x >>= f) (y >>= g) := by
  rcases h with rfl | ⟨e, rfl⟩
  · cases x with
    | error e => exact .inl rfl
    | ok a => exact hfg a
  · exact .inr ⟨e, rfl⟩

end SameOrFailed

namespace ReadStep

variable {α : Type} {step : ReadStep} {fails : ReadStep → Bool} {x : Except IndexError α}

private theorem attempt_noFault (step : ReadStep) (x : Except IndexError α) :
    step.attempt noFault x = x := rfl

private theorem attempt_sameOrFailed (step : ReadStep) (fails : ReadStep → Bool)
    (x : Except IndexError α) : SameOrFailed (step.attempt fails x) x := by
  unfold attempt
  cases fails step with
  | false => exact .inl rfl
  | true => exact .inr ⟨step.fault, rfl⟩

end ReadStep

namespace Database

/-- Query by query a database is read as it is in one go. -/
theorem readStepwise_noFault (db : Database) :
    db.readStepwise ReadStep.noFault = db.readSnapshot := by
  -- without the side table there is nothing to ask it, and with it the question is the same
  have hincomplete : (if db.any (fun t => t.name == Snapshot.incompleteTable) then readIncomplete db
      else .ok []) = readIncomplete db := by
    cases hfind : db.find? fun t => t.name == Snapshot.incompleteTable with
    | none =>
      have hany : db.any (fun t => t.name == Snapshot.incompleteTable) = false := by
        simpa using hfind
      unfold readIncomplete
      rw [hany, hfind]
      rfl
    | some t =>
      rw [if_pos (List.any_eq_true.2 ⟨t, List.mem_of_find?_eq_some hfind, List.find?_some hfind⟩)]
  unfold readStepwise readSnapshot unitTable
  simp only [ReadStep.attempt_noFault, ok_bind, hincomplete]
  cases db.table? Snapshot.unitTable with
  | none => rfl
  | some t =>
    cases hmissing : missingColumns t with
    | cons c cs => simp only [hmissing]; rfl
    | nil =>
      simp only [hmissing, ok_bind]
      split <;> rfl

private theorem readStepwise_sameOrFailed (fails : ReadStep → Bool) (db : Database) :
    SameOrFailed (db.readStepwise fails) db.readSnapshot := by
  rw [← readStepwise_noFault]
  unfold readStepwise
  -- each query adds a failure of its own and nothing else
  refine (ReadStep.attempt_sameOrFailed ..).bind fun t => ?_
  refine (ReadStep.attempt_sameOrFailed ..).bind fun rows => ?_
  refine SameOrFailed.bind ?_ fun model => ?_
  · split
    · exact ReadStep.attempt_sameOrFailed ..
    · exact .refl _
  refine (ReadStep.attempt_sameOrFailed ..).bind fun found => ?_
  refine SameOrFailed.bind ?_ fun incomplete => .refl _
  split
  · exact ReadStep.attempt_sameOrFailed ..
  · exact .refl _

end Database

namespace FileTree.Occupant

variable {o : Occupant}

private theorem reached_sameOrFailed (fails : ReadStep → Bool) (o : Occupant) :
    SameOrFailed (o.reached fails) (o.reached ReadStep.noFault) := by
  unfold reached
  refine (ReadStep.attempt_sameOrFailed ..).bind fun found => ?_
  split
  · refine (ReadStep.attempt_sameOrFailed ..).bind fun db => ?_
    exact (ReadStep.attempt_sameOrFailed ..).bind fun _ => .refl _
  · exact .refl _

/-- Whoever cannot look for the file or connect to it reaches nothing, and does not know unless
nothing is there. -/
theorem reached_of_fails {fails : ReadStep → Bool}
    (hfails : fails .lookUp = true ∨ fails .connect = true) :
    (∃ e, o.reached fails = .error e) ∨ o = .nothing := by
  unfold reached ReadStep.attempt
  cases hlookUp : fails .lookUp with
  | true => exact .inl ⟨_, rfl⟩
  | false =>
    -- the path was looked up, so it is the connection that fails
    have hconnect : fails .connect = true := by simpa [hlookUp] using hfails
    rw [hconnect]
    cases o with
    | nothing => exact .inr rfl
    | folder => exact .inl ⟨_, rfl⟩
    | file content => exact .inl ⟨_, rfl⟩
    | blocked e => exact .inl ⟨_, rfl⟩

private theorem readSnapshot_eq (o : Occupant) : o.readSnapshot = o.reached ReadStep.noFault >>= fun
    | none => .ok .empty
    | some db => db.readSnapshot := by
  unfold readSnapshot reached
  simp only [ReadStep.attempt_noFault]
  cases o.exists? with
  | error e => rfl
  | ok found =>
    cases found with
    | false => rfl
    | true => cases o.database <;> rfl

/-- Where no database is reached, none is in write-ahead mode. -/
theorem isWriteAhead_of_reached {reached : Except IndexError (Option Database)}
    (h : o.reached ReadStep.noFault = reached) (hnone : ∀ db, reached ≠ .ok (some db)) :
    o.isWriteAhead = false := by
  cases o with
  | file content =>
    cases content with
    | database db mode => exact absurd h.symm (hnone db)
    | octets bytes =>
      -- a blank file would be reached as an empty database
      have hblank : DatabaseHeader.isBlank bytes.data.toList = false := by
        rw [Bool.eq_false_iff]
        intro hblank
        have hdatabase : (file (.octets bytes)).database = .ok [] := by
          simp [database, FileContent.database?, hblank]
        refine hnone [] (h.symm.trans ?_)
        unfold Occupant.reached
        rw [hdatabase]
        rfl
      simp [isWriteAhead, FileContent.isWriteAhead, hblank]
  | _ => rfl

end FileTree.Occupant

namespace Disk

variable {d : Disk}

/-- Connecting to a file that keeps no log changes nothing. -/
theorem connected_eq_self (h : d.target.isWriteAhead = false) : d.connected = d := by
  unfold connected
  rw [FileTree.Occupant.inRollbackMode_eq_self h]

/-- A reading that succeeds has connected to the file and says what can be read of it.  One that
fails has connected to the file or has not. -/
theorem read_cases (fails : ReadStep → Bool) (d : Disk) :
    (∃ s, d.target.readSnapshot = .ok s ∧ d.read fails = (d.connected, .ok s)) ∨
      (∃ e, d.read fails = (d, .error e)) ∨ ∃ e, d.read fails = (d.connected, .error e) := by
  rw [d.target.readSnapshot_eq]
  unfold read
  rcases d.target.reached_sameOrFailed fails with hsame | ⟨e, hfailed⟩
  · rw [hsame]
    cases hreached : d.target.reached ReadStep.noFault with
    | error e => exact .inr (.inl ⟨e, rfl⟩)
    | ok reached =>
      cases reached with
      | none =>
        rw [connected_eq_self (FileTree.Occupant.isWriteAhead_of_reached hreached nofun)]
        exact .inl ⟨.empty, rfl, rfl⟩
      | some db =>
        -- the file is connected to, and what can be read of it is read or not
        rcases db.readStepwise_sameOrFailed fails with hsame | ⟨e, hfailed⟩
        · simp only [ok_bind, hsame]
          cases db.readSnapshot with
          | error e => exact .inr (.inr ⟨e, rfl⟩)
          | ok s => exact .inl ⟨s, rfl, rfl⟩
        · simp only [hfailed]
          exact .inr (.inr ⟨e, rfl⟩)
  · rw [hfailed]
    exact .inr (.inl ⟨e, rfl⟩)

/-- Where no step fails, a reading connects to what is at the path and says what can be read of it.
-/
theorem read_noFault (d : Disk) :
    d.read ReadStep.noFault = (d.connected, d.target.readSnapshot) := by
  rw [d.target.readSnapshot_eq]
  unfold read
  -- what is not reached as a database is left in its mode
  cases hreached : d.target.reached ReadStep.noFault with
  | error e =>
    rw [connected_eq_self (FileTree.Occupant.isWriteAhead_of_reached hreached nofun)]
    rfl
  | ok reached =>
    cases reached with
    | none =>
      rw [connected_eq_self (FileTree.Occupant.isWriteAhead_of_reached hreached nofun)]
      rfl
    | some db => exact congrArg (Prod.mk _) db.readStepwise_noFault

end Disk

/-! ## §4 Sessions -/

namespace StoreSession

/-- A new session has what is at the path, if that can be read. -/
theorem open_eq (d : Disk) : StoreSession.open d =
    (d.connected, d.target.readSnapshot.map fun s => ⟨s, d.connected⟩) := by
  unfold StoreSession.open
  rw [d.read_noFault]
  cases d.target.readSnapshot <;> rfl

/-- A session that is reloaded has what is at the path, or what it had if that cannot be read. -/
theorem reload_eq (st : StoreSession) : st.reload =
    (⟨st.disk.target.readSnapshot.toOption.getD st.memory, st.disk.connected⟩,
      st.disk.target.readSnapshot.map fun _ => ()) := by
  unfold reload
  rw [st.disk.read_noFault]
  cases st.disk.target.readSnapshot <;> rfl

end StoreSession

end CodeIndex
