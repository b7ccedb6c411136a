import CodeIndex.Embedding.Chunk

/-!
# Embedding batches of files

The units of a batch of files are cut into chunks, all chunks are requested at once, and the answers
are put together again: `settle` gives every unit its vector, takes the units that failed out of
their files, and reports each of them.
-/

namespace CodeIndex

/-- A unit that was taken out of its file because it has no vector. -/
structure EmbeddingFailure where
  filepath : String
  checksum : String
  /-- How reports refer to the unit. -/
  unit : String
  reason : IndexError
  deriving DecidableEq, Inhabited, Repr

namespace EmbeddingFailure

/-- The version of the file that lost the unit. -/
def key (f : EmbeddingFailure) : String × String := (f.filepath, f.checksum)

/-- The line of a failure in reports. -/
def text (f : EmbeddingFailure) : String :=
  f.filepath ++ ":" ++ f.unit ++ ": " ++ f.reason.message

end EmbeddingFailure

/-- The files of a batch with what is embedded of them, and the units that are not. -/
structure EmbedOutcome where
  records : List FileRecord
  failures : List EmbeddingFailure
  deriving DecidableEq, Inhabited, Repr

namespace EmbeddingBatch

/-- The chunks of a text, or why it cannot be cut. -/
abbrev Job := Except IndexError (List TextChunk)

/-- What became of a text. -/
abbrev Result := Except IndexError Embedding

/-! ## §1 Requests -/

/-- The chunks of a text under a tokenisation. -/
def jobOf (tokenize : String → Tokens) (maxTokens : Nat) (text : String) : Job :=
  chunkText maxTokens text (tokenize text)

/-- The chunks of a job; none if the text cannot be cut. -/
def chunksOf : Job → List TextChunk
  | .ok chunks => chunks
  | .error _ => []

/-- The texts that jobs request, in order. -/
def requests (jobs : List Job) : List String :=
  jobs.flatMap fun job => (chunksOf job).map TextChunk.text

/-- The texts of all units of files, in order. -/
def unitTexts (records : List FileRecord) : List String :=
  records.flatMap fun r => r.units.map CodeUnit.sourceText

/-! ## §2 Answers -/

/-- Cuts a list into consecutive parts of these lengths. -/
def parts {α : Type} : List Nat → List α → List (List α)
  | [], _ => []
  | n :: ns, xs => xs.take n :: parts ns (xs.drop n)

/-- The vectors of answers, or the first error among them. -/
def vectorsOf : List (Except ProviderError Embedding) → Except ProviderError (List Embedding)
  | [] => .ok []
  | .error e :: _ => .error e
  | .ok v :: rest => (vectorsOf rest).map (v :: ·)

/-- What became of a text, given the answers to its chunks. -/
def resultOf (job : Job) (answers : List (Except ProviderError Embedding)) : Result :=
  match job with
  | .error e => .error e
  | .ok chunks =>
    match vectorsOf answers with
    | .error e => .error (.embedding (.provider e))
    | .ok vectors =>
      match Embedding.combine vectors (chunks.map TextChunk.tokens) with
      | .ok v => .ok v
      | .error e => .error (.embedding (.combine e))

/-- What became of the texts of several jobs, given the answers to all their chunks in order. -/
def resultsOf (jobs : List Job) (answers : List (Except ProviderError Embedding)) : List Result :=
  (jobs.zip (parts (jobs.map fun job => (chunksOf job).length) answers)).map
    fun (job, answers) => resultOf job answers

/-! ## §3 Files -/

/-- The unit with its vector, if it has one. -/
def embedded? (u : CodeUnit) : Result → Option CodeUnit
  | .ok v => some { u with embedding := some v }
  | .error _ => none

/-- The report of a unit of a file, if it has no vector. -/
def failure? (r : FileRecord) (u : CodeUnit) : Result → Option EmbeddingFailure
  | .ok _ => none
  | .error e => some ⟨r.filepath, r.checksum, u.label, e⟩

/-- The file with its embedded units. -/
def settledRecord (r : FileRecord) (results : List Result) : FileRecord :=
  { r with units := (r.units.zip results).filterMap fun (u, result) => embedded? u result }

/-- The units of a file that have no vector. -/
def failuresOf (r : FileRecord) (results : List Result) : List EmbeddingFailure :=
  (r.units.zip results).filterMap fun (u, result) => failure? r u result

/-- The outcome of a batch, given what became of the texts of all its units in order. -/
def settle (records : List FileRecord) (results : List Result) : EmbedOutcome :=
  let settled := records.zip (parts (records.map fun r => r.units.length) results)
  { records := settled.map fun (r, results) => settledRecord r results
    failures := settled.flatMap fun (r, results) => failuresOf r results }

end EmbeddingBatch

end CodeIndex
