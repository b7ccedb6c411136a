import CodeIndex.Store.Session

/-!
# Calls on a snapshot file

Whoever uses the store of a path opens it, reloads it and commits to it in any order, while others
put what they like at the path, and perhaps leave a journal or a log beside it.  Every step of a
call can fail by circumstance.  `StoreHolder.after` is what a history of calls and outside changes
leaves behind.
-/

namespace CodeIndex

/-- A journal or a log that lies beside a database file, with what the engine makes of the file when
it is connected to the next time; then it is gone. -/
structure SideFile where
  replay : FileContent → FileContent

/-- Whoever uses the store of one path: the store's copy of the snapshot, once a store is open, the
disk and what lies beside the path. -/
structure StoreHolder where
  memory : Option Snapshot
  disk : Disk
  beside : Option SideFile

/-- A call, with the steps that fail in it. -/
inductive StoreCall where
  | «open» (fails : ReadStep → Bool)
  | reload (fails : ReadStep → Bool)
  | commit (fails : WriteStep → Bool) (s : Snapshot)

/-- What can happen at one path. -/
inductive StoreEvent where
  | call (c : StoreCall)
  /-- Others put something at the path, or take away what was there. -/
  | outside (o : FileTree.Occupant)
  /-- Others put something beside the path, or take away what was there. -/
  | beside (side : Option SideFile)

namespace StoreHolder

/-- The store, if one is open. -/
def session? (h : StoreHolder) : Option StoreSession := h.memory.map fun s => ⟨s, h.disk⟩

/-- The holder of a store. -/
def withSession (h : StoreHolder) (st : StoreSession) : StoreHolder :=
  { h with memory := some st.memory, disk := st.disk }

/-- The holder after what lies beside a file at the path has been replayed. -/
def replayed (h : StoreHolder) : StoreHolder :=
  match h.disk.target, h.beside with
  | .file content, some side =>
    { h with disk := { h.disk with target := .file (side.replay content) }, beside := none }
  | _, _ => h

/-- The holder as a reading finds it, which replays what lies beside a file as soon as it is
connected to the file. -/
def found (fails : ReadStep → Bool) (h : StoreHolder) : StoreHolder :=
  if fails .lookUp || fails .connect then h else h.replayed

/-- The holder after a call, and the call's result; `none` if there is no store to call. -/
def call (path : RawPath) (h : StoreHolder) : StoreCall →
    StoreHolder × Option (Except IndexError Unit)
  | .open fails =>
    match StoreSession.open (h.found fails).disk fails with
    | (_, .ok st) => ((h.found fails).withSession st, some (.ok ()))
    | (d, .error e) => ({ h.found fails with disk := d }, some (.error e))
  | .reload fails =>
    match (h.found fails).session? with
    | none => (h, none)
    | some st =>
      let (st, result) := st.reload fails
      ((h.found fails).withSession st, some result)
  | .commit fails s =>
    match h.session? with
    | none => (h, none)
    | some st =>
      let (st, result) := st.commitAt fails path s
      (h.withSession st, some result)

/-- The holder after an event. -/
def next (path : RawPath) (h : StoreHolder) : StoreEvent → StoreHolder
  | .call c => (h.call path c).1
  | .outside o => { h with disk := { h.disk with target := o } }
  | .beside side => { h with beside := side }

/-- The holder after a history that begins without a store, with `o` at the path and nothing beside
it. -/
def after (path : RawPath) (o : FileTree.Occupant) (events : List StoreEvent) : StoreHolder :=
  events.foldl (next path) ⟨none, ⟨o, none⟩, none⟩

end StoreHolder

end CodeIndex
