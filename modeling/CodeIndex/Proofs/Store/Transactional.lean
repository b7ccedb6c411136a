import CodeIndex.Proofs.Store.Connecting
import CodeIndex.Proofs.Store.Write
import CodeIndex.Store.Calls
import Mathlib.Data.List.Induction

/-!
# Calls are transactions

A call on a store either does all that it is for or nothing, up to what a connection does to the
file: `StoreHolder.Ends` lists the ways in which a call can end, and `StoreHolder.transactional`
says it of every call after every history, the calls that failed and the changes that others make at
the path and beside it included.
-/

namespace CodeIndex

/-- Whether a call reads what is at the path. -/
def StoreCall.reads : StoreCall → Bool
  | .open _ => true
  | .reload _ => true
  | .commit _ _ => false

namespace StoreHolder

variable {path : RawPath} {h : StoreHolder} {c : StoreCall}

/-! ## §1 What a reading finds -/

/-- The holder after a connection to what is at the path, which replays what lies beside it. -/
def connected (h : StoreHolder) : StoreHolder :=
  { h.replayed with disk := h.replayed.disk.connected }

/-- Replaying a journal leaves memory alone. -/
@[simp] theorem replayed_memory (h : StoreHolder) : h.replayed.memory = h.memory := by
  unfold replayed
  split <;> rfl

/-- Replaying a journal leaves the temporary file alone. -/
@[simp] theorem replayed_temporary (h : StoreHolder) :
    h.replayed.disk.temporary = h.disk.temporary := by
  unfold replayed
  split <;> rfl

private theorem replayed_of_alone (halone : h.beside = none) : h.replayed = h := by
  unfold replayed
  rw [halone]
  split
  · next hside => cases hside
  · rfl

private theorem replayed_of_nothing (hnothing : h.disk.target = .nothing) : h.replayed = h := by
  unfold replayed
  rw [hnothing]

/-- A reading that does not come to connect to the file finds nothing out. -/
theorem found_cases (fails : ReadStep → Bool) (h : StoreHolder) :
    h.found fails = h.replayed ∨
      h.found fails = h ∧ ∃ e, h.disk.read fails = (h.disk, .error e) := by
  unfold found
  split
  · next hfails =>
    -- what fails before it connects replays nothing; where nothing is, there is nothing to replay
    rcases FileTree.Occupant.reached_of_fails (o := h.disk.target) (by simpa using hfails) with
      ⟨e, herror⟩ | hnothing
    · refine .inr ⟨rfl, e, ?_⟩
      rw [Disk.read, herror]
    · exact .inl (replayed_of_nothing hnothing).symm
  · exact .inl rfl

@[simp] theorem found_memory (fails : ReadStep → Bool) (h : StoreHolder) :
    (h.found fails).memory = h.memory := by
  rcases found_cases fails h with heq | ⟨heq, _⟩
  · rw [heq, replayed_memory]
  · rw [heq]

/-- What reading does, whether a store is opened with it or reloaded. -/
def reading (fails : ReadStep → Bool) (h : StoreHolder) : StoreHolder × Except IndexError Unit :=
  match (h.found fails).disk.read fails with
  | (d, .ok s) => ({ h.found fails with memory := some s, disk := d }, .ok ())
  | (d, .error e) => ({ h.found fails with disk := d }, .error e)

private theorem call_open (path : RawPath) (fails : ReadStep → Bool) (h : StoreHolder) :
    h.call path (.open fails) = (h.reading fails).map id some := by
  simp only [call, reading, StoreSession.open]
  rcases (h.found fails).disk.read fails with ⟨d, e | s⟩ <;> rfl

private theorem call_reload (path : RawPath) (fails : ReadStep → Bool)
    (hopen : h.memory.isSome = true) :
    h.call path (.reload fails) = (h.reading fails).map id some := by
  obtain ⟨s, hmemory⟩ := Option.isSome_iff_exists.1 hopen
  have hfound : (h.found fails).memory = some s := by rw [found_memory, hmemory]
  have hsession : (h.found fails).session? = some ⟨s, (h.found fails).disk⟩ := by
    unfold session?
    rw [hfound]
    rfl
  simp only [call, reading, hsession, StoreSession.reload]
  -- memory is kept if reading fails, and replaced if it succeeds
  rcases (h.found fails).disk.read fails with ⟨d, e | s'⟩
  · show (StoreHolder.mk (some s) d _, _) = _
    rw [← hfound]
    rfl
  · rfl

private theorem call_closed (path : RawPath) (hclosed : h.memory = none)
    (hc : ∀ fails, c ≠ .open fails) :
    h.call path c = (h, none) := by
  -- only opening does something without a copy in memory
  cases c with
  | «open» fails => exact absurd rfl (hc fails)
  | reload fails =>
    have hsession : (h.found fails).session? = none := by
      unfold session?
      rw [found_memory, hclosed]
      rfl
    unfold call
    simp only [hsession]
  | commit fails s =>
    unfold call session?
    rw [hclosed]
    rfl

/-! ## §2 One call -/

/-- How a call on a holder can end. -/
inductive Ends (h : StoreHolder) : StoreCall → StoreHolder × Option (Except IndexError Unit) →
    Prop where
  /-- There is no store to call. -/
  | uncalled (c : StoreCall) (hclosed : h.memory = none) : Ends h c (h, none)
  /-- It fails before it has changed anything. -/
  | refused (c : StoreCall) (e : IndexError) : Ends h c (h, some (.error e))
  /-- It fails to connect, or to read what it has connected to. -/
  | unread {c : StoreCall} (hreads : c.reads = true) (e : IndexError) {h' : StoreHolder}
    (hleft : h' = h.replayed ∨ h' = h.connected) : Ends h c (h', some (.error e))
  | read {c : StoreCall} (hreads : c.reads = true) {s : Snapshot}
    (hread : h.connected.disk.target.readSnapshot = .ok s) :
    Ends h c ({ h.connected with memory := some s }, some (.ok ()))
  | committed (fails : WriteStep → Bool) (s : Snapshot) :
    Ends h (.commit fails s)
      ({ h with memory := some s, disk := ⟨.file (.database s.toDatabase), none⟩ }, some (.ok ()))

private theorem reading_ends {fails : ReadStep → Bool} (hreads : c.reads = true) :
    h.Ends c ((h.reading fails).map id some) := by
  unfold reading
  rcases found_cases fails h with hfound | ⟨hfound, e, hread⟩
  · rw [hfound]
    -- the file was found, so it is read, or connecting or reading fails
    rcases h.replayed.disk.read_cases fails with ⟨s, hsnapshot, hread⟩ | ⟨e, hread⟩ | ⟨e, hread⟩
    · rw [hread]
      refine .read hreads ?_
      rw [← hsnapshot]
      exact FileTree.Occupant.readSnapshot_inRollbackMode _
    · rw [hread]
      exact .unread hreads e (.inl rfl)
    · rw [hread]
      exact .unread hreads e (.inr rfl)
  · rw [hfound, hread]
    exact .refused c e

private theorem call_commit (path : RawPath) (fails : WriteStep → Bool) (s : Snapshot)
    {m : Snapshot} (hmemory : h.memory = some m) : h.call path (.commit fails s) =
      (StoreSession.commitAt fails path s ⟨m, h.disk⟩).map h.withSession some := by
  have hsession : h.session? = some ⟨m, h.disk⟩ := by
    unfold session?
    rw [hmemory]
    rfl
  simp only [call, hsession]
  rfl

private theorem commit_ends (path : RawPath) (fails : WriteStep → Bool) (s : Snapshot)
    (hclean : h.disk.temporary = none) :
    h.Ends (.commit fails s) (h.call path (.commit fails s)) := by
  cases hmemory : h.memory with
  | none =>
    rw [call_closed path hmemory fun _ => by simp]
    exact .uncalled _ hmemory
  | some m =>
    -- the session of a commit that fails is the one that the holder has
    have hsame : h.withSession ⟨m, h.disk⟩ = h := by
      unfold withSession
      rw [← hmemory]
    have hdisk : Disk.mk h.disk.target none = h.disk := by rw [← hclean]
    rw [call_commit path fails s hmemory]
    unfold StoreSession.commitAt
    cases FilePath.fileName? path with
    | none =>
      simp only [Prod.map, hsame]
      exact .refused _ _
    | some name =>
      rcases StoreSession.commit_cases fails (Text.decodeLossy path) s ⟨m, h.disk⟩ with
        heq | ⟨e, heq⟩
      · simp only [heq]
        exact .committed fails s
      · simp only [heq, hdisk, Prod.map, hsame]
        exact .refused _ e

private theorem call_ends (path : RawPath) (hclean : h.disk.temporary = none) (c : StoreCall) :
    h.Ends c (h.call path c) := by
  -- one ending for each kind of call
  cases c with
  | «open» fails =>
    rw [call_open]
    exact reading_ends rfl
  | reload fails =>
    cases hmemory : h.memory with
    | none =>
      rw [call_closed path hmemory fun _ => by simp]
      exact .uncalled _ hmemory
    | some m =>
      rw [call_reload path fails (by rw [hmemory]; rfl)]
      exact reading_ends rfl
  | commit fails s => exact commit_ends path fails s hclean

/-- A holder whose store is open can commit where nothing fails, unless the path has no last name or
something other than a file is in the way. -/
theorem commit_succeeds_iff (path : RawPath) (fails : WriteStep → Bool) (s : Snapshot)
    (h : StoreHolder) : (h.call path (.commit fails s)).2 = some (.ok ()) ↔
      h.memory.isSome ∧ (FilePath.fileName? path).isSome ∧ h.disk.Writable fails s := by
  cases hmemory : h.memory with
  | none => simp [call_closed path hmemory]
  | some m =>
    rw [call_commit path fails s hmemory]
    unfold StoreSession.commitAt
    cases FilePath.fileName? path with
    | none => simp
    | some name =>
      -- a session that is open with a name to write to succeeds just if the disk is writable
      by_cases hwritable : h.disk.Writable fails s
      · simp [@StoreSession.commit_of_writable fails s ⟨m, h.disk⟩ hwritable, hwritable]
      · simp [@StoreSession.commit_of_not_writable fails s ⟨m, h.disk⟩ hwritable, hwritable]

/-- Where no step fails a reading succeeds if what is at the path can be read, after what lies
beside it was replayed. -/
theorem reading_succeeds_iff (path : RawPath) (h : StoreHolder)
    (hc : c = .open ReadStep.noFault ∨ h.memory.isSome ∧ c = .reload ReadStep.noFault) :
    (h.call path c).2 = some (.ok ()) ↔ ∃ s, h.connected.disk.target.readSnapshot = .ok s := by
  have hcall : h.call path c = (h.reading ReadStep.noFault).map id some := by
    rcases hc with rfl | ⟨hopen, rfl⟩
    · exact call_open ..
    · exact call_reload path _ hopen
  -- what is read does not depend on the journal mode
  have hsnapshot : h.connected.disk.target.readSnapshot = h.replayed.disk.target.readSnapshot :=
    FileTree.Occupant.readSnapshot_inRollbackMode _
  have hfound : h.found ReadStep.noFault = h.replayed := rfl
  rw [hcall, hsnapshot]
  unfold reading
  rw [hfound, Disk.read_noFault]
  cases h.replayed.disk.target.readSnapshot with
  | error e => simp
  | ok s => simp

/-- What calls on a holder do and what they leave alone. -/
structure Transactional (path : RawPath) (h : StoreHolder) : Prop where
  /-- No call leaves a temporary file. -/
  clean : ∀ c, (h.call path c).1.disk.temporary = none
  /-- A commit that fails changes nothing. -/
  commit_failed : ∀ fails s e, (h.call path (.commit fails s)).2 = some (.error e) →
    (h.call path (.commit fails s)).1 = h
  /-- A reading that fails keeps the copy in memory, and does nothing to the file but to connect to
  it. -/
  reading_failed : ∀ c e, c.reads → (h.call path c).2 = some (.error e) →
    (h.call path c).1.memory = h.memory ∧
      ((h.call path c).1 = h ∨ (h.call path c).1 = h.replayed ∨ (h.call path c).1 = h.connected)
  /-- If nothing lies beside the file, its tables stay, and all of it does unless it is in
  write-ahead mode. -/
  reading_failed_alone : h.beside = none → ∀ c e, c.reads → (h.call path c).2 = some (.error e) →
    (h.call path c).1.disk.target.database = h.disk.target.database ∧
      (h.disk.target.isWriteAhead = false → (h.call path c).1 = h)
  /-- A commit that succeeds puts the snapshot into memory and into the file, as far as a database
  can hold it, and if nothing lies beside the file it is what is read from then on. -/
  committed : ∀ fails s, (s.rows = [] → s.model = none) → s.incomplete.Nodup →
    (h.call path (.commit fails s)).2 = some (.ok ()) →
      (h.call path (.commit fails s)).1.memory = some s ∧
        (h.call path (.commit fails s)).1.disk.target.readSnapshot = .ok s ∧
        (h.beside = none →
          (h.call path (.commit fails s)).1.call path (.reload ReadStep.noFault) =
            ((h.call path (.commit fails s)).1, some (.ok ())))
  /-- It succeeds where nothing fails and no folder is in the way. -/
  commit_iff : ∀ fails s, (h.call path (.commit fails s)).2 = some (.ok ()) ↔
    h.memory.isSome ∧ (FilePath.fileName? path).isSome ∧ h.disk.Writable fails s
  /-- A reading that succeeds puts into memory what the file holds after it was connected to, which
  is what it held before if nothing lies beside it, and the empty snapshot if there is no file. -/
  reading : ∀ c, c.reads → (h.call path c).2 = some (.ok ()) → ∃ s,
    (h.call path c).1 = { h.connected with memory := some s } ∧
      (h.call path c).1.disk.target.readSnapshot = .ok s ∧
      (h.beside = none → h.disk.target.readSnapshot = .ok s) ∧
      (h.disk.target = .nothing → s = .empty)
  /-- It succeeds where nothing fails and the file can be read. -/
  reading_iff : ∀ c, c = .open ReadStep.noFault ∨ h.memory.isSome ∧ c = .reload ReadStep.noFault →
    ((h.call path c).2 = some (.ok ()) ↔ ∃ s, h.connected.disk.target.readSnapshot = .ok s)

private theorem call_clean (path : RawPath) (hclean : h.disk.temporary = none) (c : StoreCall) :
    (h.call path c).1.disk.temporary = none := by
  generalize hresult : h.call path c = result
  -- reading replays what is beside the file and leaves its own files alone
  cases hresult ▸ call_ends path hclean c with
  | uncalled => exact hclean
  | refused => exact hclean
  | unread _ _ hleft =>
    rcases hleft with rfl | rfl
    · exact h.replayed_temporary.trans hclean
    · exact h.replayed_temporary.trans hclean
  | read => exact h.replayed_temporary.trans hclean
  | committed => rfl

private theorem commit_failed (hclean : h.disk.temporary = none) {fails : WriteStep → Bool}
    {s : Snapshot} {e : IndexError}
    (hfailed : (h.call path (.commit fails s)).2 = some (.error e)) :
    (h.call path (.commit fails s)).1 = h := by
  generalize hresult : h.call path (.commit fails s) = result at hfailed ⊢
  cases hresult ▸ call_ends path hclean (.commit fails s) with
  | uncalled => cases hfailed
  | refused => rfl
  | unread hreads => cases hreads
  | read hreads => cases hreads
  | committed => cases hfailed

private theorem reading_failed (hclean : h.disk.temporary = none) {e : IndexError}
    (hfailed : (h.call path c).2 = some (.error e)) (hreads : c.reads = true) :
    (h.call path c).1.memory = h.memory ∧
      ((h.call path c).1 = h ∨ (h.call path c).1 = h.replayed ∨
        (h.call path c).1 = h.connected) := by
  generalize hresult : h.call path c = result at hfailed ⊢
  -- of the ends only two are those of a failed reading
  cases hresult ▸ call_ends path hclean c with
  | uncalled => cases hfailed
  | refused => exact ⟨rfl, .inl rfl⟩
  | unread _ _ hleft =>
    refine ⟨?_, .inr hleft⟩
    rcases hleft with rfl | rfl
    · exact h.replayed_memory
    · exact h.replayed_memory
  | read => cases hfailed
  | committed => cases hreads

private theorem reading_done (hclean : h.disk.temporary = none)
    (hdone : (h.call path c).2 = some (.ok ())) (hreads : c.reads = true) :
    ∃ s, h.connected.disk.target.readSnapshot = .ok s ∧
      (h.call path c).1 = { h.connected with memory := some s } := by
  generalize hresult : h.call path c = result at hdone ⊢
  cases hresult ▸ call_ends path hclean c with
  | uncalled => cases hdone
  | refused => cases hdone
  | unread => cases hdone
  | read _ hread => exact ⟨_, hread, rfl⟩
  | committed => cases hreads

private theorem commit_done (hclean : h.disk.temporary = none) {fails : WriteStep → Bool}
    {s : Snapshot} (hdone : (h.call path (.commit fails s)).2 = some (.ok ())) :
    (h.call path (.commit fails s)).1 =
      { h with memory := some s, disk := ⟨.file (.database s.toDatabase), none⟩ } := by
  generalize hresult : h.call path (.commit fails s) = result at hdone ⊢
  cases hresult ▸ call_ends path hclean (.commit fails s) with
  | uncalled => cases hdone
  | refused => cases hdone
  | unread => cases hdone
  | read hreads => cases hreads
  | committed => rfl

private theorem connected_of_alone (halone : h.beside = none) :
    h.connected = { h with disk := h.disk.connected } := by
  unfold connected
  rw [replayed_of_alone halone]

/-- What a session committed that is the last to touch the file is there for the next reading. -/
theorem reload_of_alone {s : Snapshot} (halone : h.beside = none) (hmemory : h.memory = some s)
    (hread : h.disk.target.readSnapshot = .ok s) (hmode : h.disk.target.isWriteAhead = false)
    (path : RawPath) : h.call path (.reload ReadStep.noFault) = (h, some (.ok ())) := by
  rw [call_reload path _ (by rw [hmemory]; rfl)]
  have hfound : h.found ReadStep.noFault = h := replayed_of_alone halone
  unfold reading
  rw [hfound, Disk.read_noFault, hread, Disk.connected_eq_self hmode]
  show (StoreHolder.mk (some s) h.disk h.beside, _) = _
  rw [← hmemory]

private theorem transactional_of_clean (path : RawPath) (hclean : h.disk.temporary = none) :
    h.Transactional path where
  clean := call_clean path hclean
  commit_failed fails s e hfailed := commit_failed hclean hfailed
  reading_failed c e hreads hfailed := reading_failed hclean hfailed hreads
  reading_failed_alone halone c e hreads hfailed := by
    obtain ⟨_, hleft⟩ := reading_failed hclean hfailed hreads
    rw [connected_of_alone halone, replayed_of_alone halone] at hleft
    -- what is left is the holder, or the holder after a connection
    rcases hleft with heq | heq | heq
    · exact ⟨by rw [heq], fun _ => heq⟩
    · exact ⟨by rw [heq], fun _ => heq⟩
    · rw [heq]
      exact ⟨h.disk.target.database_inRollbackMode,
        fun hmode => by rw [Disk.connected_eq_self hmode]⟩
  committed fails s hmodel hincomplete hdone := by
    rw [commit_done hclean hdone]
    have hread := s.readSnapshot_toDatabase hmodel hincomplete
    refine ⟨rfl, hread, fun halone => ?_⟩
    exact reload_of_alone (h := ⟨some s, ⟨.file (.database s.toDatabase), none⟩, h.beside⟩)
      halone rfl hread rfl path
  commit_iff fails s := commit_succeeds_iff path fails s h
  reading c hreads hdone := by
    obtain ⟨s, hread, heq⟩ := reading_done hclean hdone hreads
    refine ⟨s, heq, by rw [heq]; exact hread, fun halone => ?_, fun hnothing => ?_⟩
    · rw [connected_of_alone halone] at hread
      exact (h.disk.target.readSnapshot_inRollbackMode).symm.trans hread
    · unfold connected at hread
      rw [replayed_of_nothing hnothing, Disk.connected, hnothing] at hread
      exact (Except.ok.inj hread).symm
  reading_iff c := reading_succeeds_iff path h

/-! ## §3 Histories -/

/-- No event leaves a temporary file behind. -/
theorem next_clean (path : RawPath) (hclean : h.disk.temporary = none) (event : StoreEvent) :
    (h.next path event).disk.temporary = none := by
  cases event with
  | call c => exact call_clean path hclean c
  | outside o => exact hclean
  | beside side => exact hclean

/-- Calls leave nothing beside the path where nothing was. -/
theorem call_alone (path : RawPath) (hclean : h.disk.temporary = none) (halone : h.beside = none)
    (c : StoreCall) : (h.call path c).1.beside = none := by
  have hreplayed : h.replayed.beside = none := by rw [replayed_of_alone halone, halone]
  generalize hresult : h.call path c = result
  -- nothing was beside the file, and no call puts anything there
  cases hresult ▸ call_ends path hclean c with
  | uncalled => exact halone
  | refused => exact halone
  | unread _ _ hleft =>
    rcases hleft with rfl | rfl
    · exact hreplayed
    · exact hreplayed
  | read => exact hreplayed
  | committed => exact halone

/-- A longer history takes one event more. -/
theorem after_concat (path : RawPath) (o : FileTree.Occupant) (events : List StoreEvent)
    (event : StoreEvent) :
    after path o (events ++ [event]) = (after path o events).next path event := by
  simp [after]

private theorem after_clean (path : RawPath) (o : FileTree.Occupant) (events : List StoreEvent) :
    (after path o events).disk.temporary = none := by
  -- the last event comes after a history of its own
  induction events using List.reverseRecOn with
  | nil => rfl
  | append_singleton events event ih =>
    rw [after_concat]
    exact next_clean path ih event

private theorem after_alone (path : RawPath) (o : FileTree.Occupant) {events : List StoreEvent}
    (hevents : ∀ side, .beside side ∉ events) : (after path o events).beside = none := by
  induction events using List.reverseRecOn with
  | nil => rfl
  | append_singleton events event ih =>
    simp only [List.mem_append, List.mem_singleton, not_or] at hevents
    have halone := ih fun side => (hevents side).1
    rw [after_concat]
    -- only an event that says so puts a file beside the database
    cases event with
    | call c => exact call_alone path (after_clean path o events) halone c
    | outside o => exact halone
    | beside side => exact absurd rfl (hevents side).2

/-- Every call is a transaction, whatever happened before it, up to what a connection does: it
replays what others left beside the file, and puts a file in write-ahead mode into rollback mode.
Where nobody leaves anything beside the file, there is nothing to be replayed. -/
theorem transactional (path : RawPath) (o : FileTree.Occupant) (events : List StoreEvent) :
    (after path o events).Transactional path ∧
      ((∀ side, .beside side ∉ events) → (after path o events).beside = none) :=
  ⟨transactional_of_clean path (after_clean path o events), after_alone path o⟩

end StoreHolder

namespace Sample

/-- The path `db`. -/
def indexPath : RawPath := [0x64, 0x62]

/-- A file that is no database. -/
def noDatabase : FileTree.Occupant := .file (.octets (ByteArray.mk #[1, 2]))

/-- A database without tables, in write-ahead mode. -/
def writeAheadDatabase : FileTree.Occupant := .file (.database [] .writeAhead)

/-- A store is opened where there is no database, then where there is nothing, and somebody puts a
folder in the way of its commit and `o` in the place of the folder. -/
def interferences (o : FileTree.Occupant) : List StoreEvent :=
  [.call (.open ReadStep.noFault), .outside .nothing, .call (.open ReadStep.noFault),
    .outside .folder, .call (.commit (fun _ => false) .empty), .outside o]

/-- A snapshot with a row, a model and an incomplete file. -/
def smallSnapshot : Snapshot := ⟨[⟨"a.py", "1", .ofGlobalCode "x"⟩], some "m", [("b.py", "2")]⟩

/-- A log that makes every file the database of the small snapshot. -/
def staleLog : SideFile := ⟨fun _ => .database smallSnapshot.toDatabase⟩

/-- Somebody puts the log beside the file to which the empty snapshot has been committed. -/
def overwritten : List StoreEvent :=
  interferences noDatabase ++ [.call (.commit (fun _ => false) .empty), .beside (some staleLog)]

end Sample

open Sample in
/-- A store that cannot be opened has changed its file nevertheless. -/
theorem StoreHolder.open_failed_disturbs :
    ((after indexPath writeAheadDatabase []).call indexPath (.open ReadStep.noFault)).2 =
        some (.error (.snapshotSchema .missingTable)) ∧
      ((after indexPath writeAheadDatabase []).call indexPath
        (.open ReadStep.noFault)).1.disk.target ≠
          (after indexPath writeAheadDatabase []).disk.target := by
  refine ⟨rfl, fun h => ?_⟩
  -- afterwards the file is in rollback mode, and before it was not
  have hmode : (FileTree.Occupant.file (.database [] .rollback)).isWriteAhead =
      writeAheadDatabase.isWriteAhead := congrArg FileTree.Occupant.isWriteAhead h
  cases hmode

open Sample in
/-- With a file that others replace, a reading that fails and a commit that succeeds do what they
should. -/
theorem StoreHolder.transactional_sample :
    ((after indexPath noDatabase (interferences noDatabase)).call indexPath
        (.reload ReadStep.noFault)).1 = after indexPath noDatabase (interferences noDatabase) ∧
      ((after indexPath noDatabase (interferences noDatabase)).call indexPath
        (.commit (fun _ => false) smallSnapshot)).1.disk.target.readSnapshot = .ok smallSnapshot ∧
      ((after indexPath noDatabase (interferences .nothing)).call indexPath
        (.reload ReadStep.noFault)).1.memory = some .empty ∧
      ((after indexPath noDatabase overwritten).call indexPath
        (.reload ReadStep.noFault)).1.memory = some smallSnapshot := by
  obtain ⟨hdiverged, hnobody⟩ := transactional indexPath noDatabase (interferences noDatabase)
  obtain ⟨hremoved, -⟩ := transactional indexPath noDatabase (interferences .nothing)
  obtain ⟨hoverwritten, -⟩ := transactional indexPath noDatabase overwritten
  have halone := hnobody (by simp [interferences])
  have hsmall : smallSnapshot.toDatabase.readSnapshot = .ok smallSnapshot :=
    smallSnapshot.readSnapshot_toDatabase (by decide) (by decide)
  refine ⟨?_, ?_, ?_, ?_⟩
  · exact (hdiverged.reading_failed_alone halone (.reload ReadStep.noFault)
      (.database "file is not a database") rfl (by decide)).2 (by decide)
  · have hdone := (hdiverged.commit_iff (fun _ => false) smallSnapshot).2
      ⟨rfl, rfl, fun _ _ => rfl, .inr ⟨_, rfl⟩⟩
    exact (hdiverged.committed _ _ (by decide) (by decide) hdone).2.1
  · obtain ⟨s, heq, -, -, hempty⟩ := hremoved.reading (.reload ReadStep.noFault) rfl rfl
    rw [heq, hempty rfl]
  · have hdone := (hoverwritten.reading_iff _ (.inr ⟨rfl, rfl⟩)).2 ⟨_, hsmall⟩
    obtain ⟨s, heq, hread, -, -⟩ := hoverwritten.reading (.reload ReadStep.noFault) rfl hdone
    rw [heq] at hread ⊢
    exact congrArg some (Except.ok.inj (hread.symm.trans hsmall))

end CodeIndex
