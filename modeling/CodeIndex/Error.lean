import CodeIndex.Embedding.Combine
import CodeIndex.Provider.Error
import CodeIndex.Unit

/-!
# Errors of the index

Why an operation on files, units or snapshots failed.  Each case names a cause; `IndexError.message`
is the only place where causes are put into words.
-/

namespace CodeIndex

/-- Why a text has no embedding. -/
inductive EmbeddingError where
  /-- The provider gave up on one of the chunks. -/
  | provider (e : ProviderError)
  /-- The chunks' vectors do not combine. -/
  | combine (e : CombineError)
  deriving DecidableEq, Inhabited, Repr

/-- The wording of an error. -/
def EmbeddingError.message : EmbeddingError → String
  | provider e => e.message
  | combine e => e.message

/-- What is wrong with the tables of a database. -/
inductive SchemaError where
  | missingTable
  | missingColumns (names : List String)
  | unknownKind (text : String)
  deriving DecidableEq, Inhabited, Repr

/-- The wording of an error. -/
def SchemaError.message : SchemaError → String
  | missingTable => "missing table code_units"
  | missingColumns names => "missing columns: " ++ ", ".intercalate names
  | unknownKind text => UnitKind.unknownMessage text

/-- Why a write of the snapshot did not come about. -/
inductive WriteError where
  | invalidPath (path : String)
  | failed (path detail : String)
  deriving DecidableEq, Inhabited, Repr

/-- The wording of an error. -/
def WriteError.message : WriteError → String
  | invalidPath path => "invalid path " ++ path
  | failed path detail => path ++ ": " ++ detail

/-- Why an operation of the index failed. -/
inductive IndexError where
  /-- A file or directory could not be read. -/
  | io (detail : String)
  /-- The grammar rejects a file. -/
  | parse (path reason : String)
  | unsupportedLanguage
  | embedding (e : EmbeddingError)
  /-- A provider error outside the embedding of a text. -/
  | provider (e : ProviderError)
  /-- No window of tokens from this token on spells a text. -/
  | tokenizer (start : Nat)
  /-- The snapshot was not written; the one before it is untouched. -/
  | storageWrite (e : WriteError)
  | snapshotSchema (e : SchemaError)
  /-- The database could not be read. -/
  | database (detail : String)
  /-- A stored list is no JSON list of strings. -/
  | json (detail : String)
  /-- An ignore pattern or ignore file is malformed. -/
  | ignoreRules (detail : String)
  | watcher (detail : String)
  /-- The run was cancelled before the snapshot was committed. -/
  | cancelled
  /-- A worker broke down. -/
  | worker (detail : String)
  deriving DecidableEq, Inhabited, Repr

namespace IndexError

/-- The wording of an error. -/
def message : IndexError → String
  | io detail => "IO error: " ++ detail
  | parse path reason => "parse failed for " ++ path ++ ": " ++ reason
  | unsupportedLanguage => "unsupported language"
  | embedding e => "embedding failed: " ++ e.message
  | provider e => "LLM error: " ++ e.message
  | tokenizer start =>
    "tokenizer error: no valid UTF-8 boundary after token " ++ toString start
  | storageWrite e => "snapshot write failed: " ++ e.message
  | snapshotSchema e => "snapshot schema invalid: " ++ e.message
  | database detail => "database error: " ++ detail
  | json detail => "JSON error: " ++ detail
  | ignoreRules detail => "ignore rules error: " ++ detail
  | watcher detail => "watcher error: " ++ detail
  | cancelled => "indexing cancelled"
  | worker detail => "worker task failed: " ++ detail

end IndexError

end CodeIndex
