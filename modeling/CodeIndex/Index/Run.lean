import CodeIndex.Decomposition
import CodeIndex.Embedding.Embedder
import CodeIndex.Index.Workload
import CodeIndex.Scan
import CodeIndex.Store.Session

/-!
# Index runs

A run brings the snapshot of a session up to date with a folder: it scans the folder, decomposes and
embeds what is new, and commits the next snapshot.  What can interfere from outside is an argument,
the *circumstances*: cancellation, broken workers, the order in which workers finish, and the steps
of the write that fail.  A run that fails leaves the session as it was.
-/

namespace CodeIndex

/-- A point at which a run notices that it has been cancelled. -/
inductive RunStage where
  | decomposing
  | embedding
  | committing
  deriving DecidableEq, Inhabited, Repr

/-- What interferes with a run from outside. -/
structure Circumstances where
  /-- Where the run is cancelled, if it is. -/
  cancelledAt : Option RunStage := none
  /-- A worker breaks down. -/
  workerFails : Bool := false
  /-- The order in which files come back from the workers. -/
  arrange : List Decomposed → List Decomposed := id
  /-- The snapshot file cannot be looked for. -/
  lookupFails : Bool := false
  /-- The steps of the write that fail. -/
  writeFails : WriteStep → Bool := fun _ => false

namespace Circumstances

/-- Nothing interferes. -/
def calm : Circumstances := {}

/-- The run is cancelled before it starts. -/
def cancelled : Circumstances := { cancelledAt := some .decomposing }

end Circumstances

/-- The state after a run, and what the run has to say. -/
structure RunOutcome (σ : Type) where
  session : StoreSession
  result : Except IndexError RunReport
  /-- The texts that were to be embedded. -/
  asked : List String
  /-- The texts with which the provider was called, in the order of the calls. -/
  sent : List String
  /-- A new snapshot was put in place. -/
  written : Bool
  provider : σ

/-- How often the provider was called. -/
def RunOutcome.calls {σ : Type} (out : RunOutcome σ) : Nat := out.sent.length

/-- What brings snapshots up to date: an embedder, the grammars and patterns of files to ignore. -/
structure Indexer (σ : Type) where
  embedder : Embedder σ
  /-- The syntax tree of a text in a language. -/
  grammar : Language → String → SyntaxTree
  extraIgnore : List String
  /-- The path of the snapshot, for messages. -/
  snapshotPath : String

namespace Indexer

variable {σ : Type} (ix : Indexer σ)

/-- The name under which a snapshot remembers who embedded it. -/
def modelId : String := ix.embedder.modelId

/-! ## §1 Files -/

/-- The units of a text, or why it has none. -/
def unitsOf (language : Language) (filepath text : String) : Except IndexError (List CodeUnit) :=
  match Decomposition.ofParse text (ix.grammar language text) language with
  | .ok units => .ok units
  | .error fault => .error (.parse filepath fault.message)

/-- A file below `root` with its units. -/
def decomposeFile (top : FileTree) (root : RawPath) (file : FileRecord) :
    Except IndexError FileRecord :=
  let path := FilePath.join root (Text.octets file.filepath)
  match Language.ofPath? path with
  | none => .error .unsupportedLanguage
  | some language =>
    match top.readText path with
    | .error e => .error e
    | .ok text =>
      match ix.unitsOf language file.filepath text with
      | .error e => .error e
      | .ok units => .ok { file with units := units }

/-- The files below `root` that can be indexed. -/
def scan (top : FileTree) (root : RawPath) : Except IndexError (List FileRecord) :=
  match IgnoreRules.load top root ix.extraIgnore with
  | .error e => .error e
  | .ok rules => Scan.ofFolder rules.isIgnored FileContent.checksum top root []

/-! ## §2 Committing -/

/-- Whether a snapshot has to be written: it differs from the one in memory, or the file is gone. -/
def mustWrite (c : Circumstances) (next : Snapshot) (session : StoreSession) :
    Except IndexError Bool :=
  if next.sameContent session.memory then
    if c.lookupFails then .error (.io "lookup failed")
    else session.disk.target.exists?.map fun found => !found
  else .ok true

/-- Commits a snapshot if that is necessary, and tells whether it was. -/
def settle (c : Circumstances) (next : Snapshot) (session : StoreSession) :
    StoreSession × Except IndexError Bool :=
  match mustWrite c next session with
  | .error e => (session, .error e)
  | .ok false => (session, .ok false)
  | .ok true =>
    match session.commit c.writeFails ix.snapshotPath next with
    | (session, .ok ()) => (session, .ok true)
    | (session, .error e) => (session, .error e)

/-! ## §3 Runs -/

/-- Embeds the decomposed files, concludes the run and commits its snapshot. -/
def conclude (c : Circumstances) (scan : List FileRecord) (w : Workload)
    (results : List Decomposed) (session : StoreSession) (state : σ) : RunOutcome σ :=
  if c.cancelledAt = some .embedding then ⟨session, .error .cancelled, [], [], false, state⟩
  else
    let embedded := ix.embedder.embedRecords (Workload.parsed results) state
    if c.cancelledAt = some .committing then
      ⟨session, .error .cancelled, embedded.asked, embedded.sent, false, embedded.provider⟩
    else
      let next := w.nextSnapshot session.memory ix.modelId embedded.outcome
      let report := w.report scan session.memory results embedded.outcome
      match ix.settle c next session with
      | (session, .ok written) =>
        ⟨session, .ok report, embedded.asked, embedded.sent, written, embedded.provider⟩
      | (session, .error e) =>
        ⟨session, .error e, embedded.asked, embedded.sent, false, embedded.provider⟩

/-- A run over scanned files, given what decomposes each of them. -/
def runOn (c : Circumstances) (scan : List FileRecord)
    (decomposeFile : FileRecord → Except IndexError FileRecord) (session : StoreSession)
    (state : σ) : RunOutcome σ :=
  let w := Workload.make scan session.memory ix.modelId
  if c.cancelledAt = some .decomposing then ⟨session, .error .cancelled, [], [], false, state⟩
  else if c.workerFails then ⟨session, .error (.worker "task failed"), [], [], false, state⟩
  else ix.conclude c scan w (c.arrange (w.decompose decomposeFile)) session state

/-- A run over the folder at `root`. -/
def run (c : Circumstances) (top : FileTree) (root : RawPath) (session : StoreSession) (state : σ) :
    RunOutcome σ :=
  match ix.scan top root with
  | .error e => ⟨session, .error e, [], [], false, state⟩
  | .ok scan => ix.runOn c scan (ix.decomposeFile top root) session state

end Indexer

end CodeIndex
