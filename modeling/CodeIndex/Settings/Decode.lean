import CodeIndex.Settings
import CodeIndex.Toml.Reader

/-!
# Settings from a document

A group of settings is a table by names, or a list of values in a fixed order; what is left out has
its default, and unknown names are passed over.
-/

namespace CodeIndex

namespace Toml

/-- The values of named members in order.  A date has no members with these names. -/
def members? (names : List String) : Toml → Option (List (Option Toml))
  | .table _ entries => some (names.map fun name => entries.lookup name)
  | .array items => some ((List.range names.length).map fun i => items[i]?)
  | .tables elements => some ((List.range names.length).map fun i => elements[i]?)
  | .moment => some (names.map fun _ => none)
  | _ => none

/-- A member that has a default. -/
def orDefault? {α : Type} (default : α) (value? : Toml → Option α) : Option Toml → Option α
  | none => some default
  | some v => value? v

/-- A text. -/
def asText? : Toml → Option String
  | .text s => some s
  | _ => none

/-- A truth value. -/
def asBool? : Toml → Option Bool
  | .boolean b => some b
  | _ => none

/-- A natural number of at most so many bits. -/
def asNat? (bits : Nat) : Toml → Option Nat
  | .integer n => if 0 ≤ n ∧ n.toNat < Nat.pow 2 bits then some n.toNat else none
  | _ => none

/-- A list of items. -/
def asList? {α : Type} (item? : Toml → Option α) : Toml → Option (List α)
  | .array items => items.mapM item?
  | .tables elements => elements.mapM item?
  | _ => none

/-- Whether a value has nothing in it. -/
def isEmpty : Toml → Bool
  | .array items => items.isEmpty
  | .tables elements => elements.isEmpty
  | .table _ entries => entries.isEmpty
  | _ => false

/-- A provider: its name, or a table whose only member has that name and nothing in it. -/
def asProviderKind? : Toml → Option ProviderKind
  | .text s => ProviderKind.ofName? s
  | .table _ [(name, v)] => if v.isEmpty then ProviderKind.ofName? name else none
  | _ => none

/-- The settings of the provider. -/
def asProviderSettings? (t : Toml) : Option ProviderSettings := do
  let d : ProviderSettings := {}
  match ← members? ["provider", "base_url", "model", "api_key", "max_tokens",
      "max_concurrent_requests", "max_attempts", "base_backoff_ms", "request_timeout_secs"] t with
  | [kind, baseUrl, model, apiKey, tokens, concurrent, attempts, backoff, timeout] =>
    return {
      kind := ← orDefault? d.kind asProviderKind? kind
      baseUrl := ← orDefault? d.baseUrl asText? baseUrl
      model := ← orDefault? d.model asText? model
      apiKey := ← orDefault? d.apiKey (fun v => (asText? v).map some) apiKey
      maxTokens := ← orDefault? d.maxTokens (asNat? 64) tokens
      maxConcurrentRequests := ← orDefault? d.maxConcurrentRequests (asNat? 64) concurrent
      maxAttempts := ← orDefault? d.maxAttempts (asNat? 32) attempts
      baseBackoffMillis := ← orDefault? d.baseBackoffMillis (asNat? 64) backoff
      requestTimeoutSeconds := ← orDefault? d.requestTimeoutSeconds (asNat? 64) timeout }
  | _ => none

/-- The settings of the index. -/
def asIndexSettings? (t : Toml) : Option IndexSettings := do
  let d : IndexSettings := {}
  match ← members? ["snapshot_path", "extra_ignore", "decompose_workers", "watch"] t with
  | [path, ignore, workers, watch] =>
    return {
      snapshotPath := ← orDefault? d.snapshotPath asText? path
      extraIgnore := ← orDefault? d.extraIgnore (asList? asText?) ignore
      decomposeWorkers :=
        ← orDefault? d.decomposeWorkers (fun v => (asNat? 64 v).map some) workers
      watch := ← orDefault? d.watch asBool? watch }
  | _ => none

/-- All settings. -/
def asSettings? (t : Toml) : Option Settings := do
  match ← members? ["embedding", "index"] t with
  | [embedding, index] =>
    return {
      embedding := ← orDefault? {} asProviderSettings? embedding
      index := ← orDefault? {} asIndexSettings? index }
  | _ => none

end Toml

/-- The settings that a text spells. -/
def Settings.ofText? (text : String) : Option Settings :=
  (Toml.ofText? text).bind Toml.asSettings?

end CodeIndex
