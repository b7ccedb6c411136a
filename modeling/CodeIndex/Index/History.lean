import CodeIndex.Index.Run

/-!
# Histories

A snapshot file lives longer than any one run: runs follow each other, each with a folder, an
indexer and circumstances of its own, and between them the file is read again or opened by a new
session.  `StoreSession.after` is the session that such a history leaves behind when it begins with
nothing.  Runs can follow each other in one session, or each in a session of its own:
`StoreSession.inOneSession` and `StoreSession.inNewSessions` are what a caller sees of them.
-/

namespace CodeIndex

/-- What a caller sees of a run: the session after it, and what the run has to say. -/
structure SessionStep where
  session : StoreSession
  result : Except IndexError RunReport

/-- One run: who indexes which folder, and under which circumstances. -/
structure ProjectRun where
  {σ : Type}
  indexer : Indexer σ
  circumstances : Circumstances
  top : FileTree
  root : RawPath
  /-- The provider's state before the run. -/
  state : σ

namespace ProjectRun

variable (r : ProjectRun)

/-- The run as it goes from a session. -/
def outcome (session : StoreSession) : RunOutcome r.σ :=
  r.indexer.run r.circumstances r.top r.root session r.state

/-- The run as a caller sees it. -/
def step (session : StoreSession) : SessionStep :=
  ⟨(r.outcome session).session, (r.outcome session).result⟩

/-- The same run, except that the provider may be in another state. -/
def SameCall (r' : ProjectRun) : Prop := ∃ state, r' = { r with state := state }

/-- The model of the run. -/
def modelId : String := r.indexer.modelId

/-- The files that the run finds; none if it cannot scan the folder. -/
def files : List FileRecord :=
  match r.indexer.scan r.top r.root with
  | .ok files => files
  | .error _ => []

/-- The path that the run opens for a file. -/
def pathOf (filepath : String) : RawPath := FilePath.join r.root (Text.octets filepath)

/-- The content that the run reads for a file. -/
def contentAt? (filepath : String) : Option FileContent :=
  match r.top.find (r.pathOf filepath) with
  | .ok (.file content) => some content
  | _ => none

/-- The language that the run reads a file in. -/
def languageAt? (filepath : String) : Option Language := Language.ofPath? (r.pathOf filepath)

/-- The units of a text in a language. -/
def unitsOf (language : Language) (text : String) :
    Except Decomposition.SyntaxFault (List CodeUnit) :=
  Decomposition.ofParse text (r.indexer.grammar language text) language

/-- The files of the run have paths of their own, and the workers lose and invent none of them. -/
structure Orderly : Prop where
  distinct : (r.files.map FileRecord.filepath).Nodup
  arranges : ∀ ds, (r.circumstances.arrange ds).Perm ds

/-- Whatever the run reads for a file is what it found there: the path made of the file's recorded
name leads nowhere, or to content with the recorded checksum. -/
def Truthful : Prop :=
  ∀ f ∈ r.files, ∀ content, r.contentAt? f.filepath = some content → content.checksum = f.checksum

/-- Memory has the whole of a file's content under some path, with vectors that the run may use. -/
def Knows (memory : Snapshot) (f : FileRecord) : Prop :=
  memory.embeddedBy r.modelId = true ∧
    ∃ row ∈ memory.rows, row.checksum = f.checksum ∧ row.key ∉ memory.incomplete

/-- The run finds a file with checksum `c` at the path `p`, reads this content for it, and
decomposes that into these units. -/
def Decomposes (p c : String) (content : FileContent) (units : List CodeUnit) : Prop :=
  (∃ f ∈ r.files, f.key = (p, c)) ∧ r.contentAt? p = some content ∧
    ∃ text language, content.text = .ok text ∧ r.languageAt? p = some language ∧
      r.unitsOf language text = .ok units

/-- Both runs index the same folder in the same way, with the same model.  Whom they ask, and under
which circumstances, may differ. -/
structure SameProject (r' : ProjectRun) : Prop where
  top : r.top = r'.top
  root : r.root = r'.root
  grammar : r.indexer.grammar = r'.indexer.grammar
  extraIgnore : r.indexer.extraIgnore = r'.indexer.extraIgnore
  modelId : r.modelId = r'.modelId

/-- Nothing interferes with the run. -/
structure Undisturbed : Prop where
  cancelledAt : r.circumstances.cancelledAt = none
  workerFails : r.circumstances.workerFails = false
  lookupFails : r.circumstances.lookupFails = false
  writeFails : r.circumstances.writeFails = fun _ => false

/-- From this session the run ends well and loses no unit. -/
def Clean (session : StoreSession) : Prop :=
  ∃ report, (r.outcome session).result = .ok report ∧ report.embeddingFailures = []

/-- What the embedder says in the run, text by text. -/
def answers (session : StoreSession) : List (String × EmbeddingBatch.Result) :=
  let asked := (r.outcome session).asked
  asked.zip (r.indexer.embedder.embedTexts asked r.state).outcome

end ProjectRun

/-- What can happen to a session. -/
inductive SessionEvent where
  | run (r : ProjectRun)
  /-- The snapshot file is read again. -/
  | reload
  /-- A new session opens the snapshot file, if it can. -/
  | reopen

namespace StoreSession

/-- No snapshot file, and nothing in memory. -/
def fresh : StoreSession := ⟨.empty, ⟨.nothing, none⟩⟩

/-- The snapshots of a session: the copy in memory, and what the file holds if it can be read. -/
def snapshots (session : StoreSession) : List Snapshot :=
  session.memory :: session.disk.target.readSnapshot.toOption.toList

/-- The session after one event. -/
def next (session : StoreSession) : SessionEvent → StoreSession
  | .run r => (r.outcome session).session
  | .reload => session.reload.1
  | .reopen =>
    match StoreSession.open session.disk with
    | (_, .ok opened) => opened
    | (d, .error _) => { session with disk := d }

/-- The session that a history leaves behind. -/
def after (events : List SessionEvent) : StoreSession := events.foldl next fresh

/-- Runs that follow each other in one session. -/
def inOneSession : StoreSession → List ProjectRun → List SessionStep
  | _, [] => []
  | session, r :: rest => r.step session :: (r.step session).session.inOneSession rest

/-- Runs that follow each other on one disk, each in a session that opens the snapshot file anew;
`.error` if one of them cannot open it. -/
def inNewSessions : Disk → List ProjectRun → Except IndexError (List SessionStep)
  | _, [] => .ok []
  | d, r :: rest => do
    let session ← (StoreSession.open d).2
    let steps ← inNewSessions (r.step session).session.disk rest
    return r.step session :: steps

end StoreSession

end CodeIndex
