import CodeIndex.Proofs.Endpoint.Ollama
import CodeIndex.Settings.Load
import CodeIndex.Settings.Start

/-!
# Starting with valid settings

Valid settings give every limit of the embedder a value to work with, but they do not keep the start
from crashing: nothing judges what a base URL says, and the limits have no upper bound.  When the
start crashes is said by `crashes_iff`.
-/

namespace CodeIndex

/-- Every limit of the embedder lets something through, and there is a pool of so many permits. -/
structure EmbedderSettings.Workable (e : EmbedderSettings) : Prop where
  tokens : 0 < e.maxTokens
  concurrent : 0 < e.maxConcurrent
  permits : e.maxConcurrent ≤ Settings.maxPermits
  attempts : 0 < e.maxAttempts
  timeout : 0 < e.requestTimeoutSeconds

namespace Settings

variable {s : Settings}

/-! ## §1 Valid settings -/

/-- What is asked of settings. -/
structure Valid (s : Settings) : Prop where
  tokens : 0 < s.embedding.maxTokens
  concurrent : 0 < s.embedding.maxConcurrentRequests
  attempts : 0 < s.embedding.maxAttempts
  timeout : 0 < s.embedding.requestTimeoutSeconds
  url : Text.allBlank s.embedding.baseUrl = false
  workers : s.index.decomposeWorkers ≠ some 0
  snapshot : Text.allBlank s.index.snapshotPath = false

private theorem ite_some_eq_none_iff {α : Type} {c : Prop} [Decidable c] {a : α} {rest : Option α} :
    (if c then some a else rest) = none ↔ ¬ c ∧ rest = none := by
  by_cases h : c <;> simp [h]

private theorem fault?_eq_none_iff : s.fault? = none ↔ s.Valid := by
  simp only [fault?, ite_some_eq_none_iff, Bool.not_eq_true, and_true]
  constructor
  · rintro ⟨htokens, hconcurrent, hattempts, htimeout, hurl, hworkers, hsnapshot⟩
    exact ⟨Nat.pos_of_ne_zero htokens, Nat.pos_of_ne_zero hconcurrent, Nat.pos_of_ne_zero hattempts,
      Nat.pos_of_ne_zero htimeout, hurl, hworkers, hsnapshot⟩
  · rintro ⟨htokens, hconcurrent, hattempts, htimeout, hurl, hworkers, hsnapshot⟩
    exact ⟨htokens.ne', hconcurrent.ne', hattempts.ne', htimeout.ne', hurl, hworkers, hsnapshot⟩

private theorem validate_eq_ok_iff : s.validate = .ok () ↔ s.Valid := by
  rw [← fault?_eq_none_iff, validate]
  cases s.fault? with
  | none => simp
  | some e => simp

/-- The settings with another server, and with another limit on the requests at once. -/
def withServer (s : Settings) (kind : ProviderKind) (baseUrl : String) (concurrent : Nat) :
    Settings :=
  { s with embedding := { s.embedding with
      kind := kind, baseUrl := baseUrl, maxConcurrentRequests := concurrent } }

/-- No kind of server is refused, no base URL that says something, and no positive limit. -/
theorem Valid.withServer (h : s.Valid) (kind : ProviderKind) {baseUrl : String}
    (hurl : Text.allBlank baseUrl = false) {concurrent : Nat} (hconcurrent : 0 < concurrent) :
    (s.withServer kind baseUrl concurrent).Valid :=
  { h with concurrent := hconcurrent, url := hurl }

/-! ## §2 Crashes -/

/-- Starting crashes. -/
def Crashes (s : Settings) : Prop := ∃ e, s.start = .error e ∧ e.isCrash = true

/-- The pool has as many permits as requests may run at once, and at least one. -/
theorem maxPermits_lt_iff (n : Nat) : maxPermits < max 1 n ↔ maxPermits < n := by
  simp only [maxPermits]
  omega

private theorem start_of_endpoint {e : Endpoint} (h : s.endpoint = .ok e) :
    s.start = if maxPermits < s.embedding.maxConcurrentRequests then .error .tooManyPermits
      else .ok ⟨e, s.embedderSettings, s.index.extraIgnore⟩ := by
  simp only [start, h, maxPermits_lt_iff, embedderSettings]

private theorem crashes_of_endpoint_ok {e : Endpoint} (h : s.endpoint = .ok e) :
    s.Crashes ↔ maxPermits < s.embedding.maxConcurrentRequests := by
  rw [Crashes, start_of_endpoint h]
  split
  · next hlt => simp [hlt, StartFailure.isCrash]
  · next hle => simp [hle]

private theorem crashes_of_endpoint_error {f : StartFailure} (h : s.endpoint = .error f) :
    s.Crashes ↔ f.isCrash = true := by
  simp [Crashes, start, h]

/-- What crashes is a base URL that is none, or a pool of more permits than there can be; but a
missing key is refused first. -/
theorem crashes_iff : s.Crashes ↔
    (s.embedding.kind = .ollama ∧ Ollama.endpoint? s.embedding.baseUrl = none) ∨
      (maxPermits < s.embedding.maxConcurrentRequests ∧
        (s.embedding.kind = .openAi → s.embedding.apiKey.isSome = true)) := by
  -- a missing key is refused before anything can crash
  cases hkind : s.embedding.kind with
  | openAi =>
    cases hkey : s.embedding.apiKey with
    | none =>
      have hendpoint : s.endpoint = .error (.refused .missingKey) := by
        simp only [endpoint, hkind, hkey]
      simp [crashes_of_endpoint_error hendpoint, StartFailure.isCrash]
    | some key =>
      have hendpoint : s.endpoint = .ok (.openAi key s.embedding.baseUrl s.embedding.model) := by
        simp only [endpoint, hkind, hkey]
      simp [crashes_of_endpoint_ok hendpoint]
  | ollama =>
    cases hurl : Ollama.endpoint? s.embedding.baseUrl with
    | none =>
      have hendpoint : s.endpoint = .error .unusableUrl := by simp only [endpoint, hkind, hurl]
      simp [crashes_of_endpoint_error hendpoint, StartFailure.isCrash]
    | some url =>
      have hendpoint : s.endpoint = .ok (.ollama url s.embedding.model) := by
        simp only [endpoint, hkind, hurl]
      simp [crashes_of_endpoint_ok hendpoint]

/-- A started program can work. -/
theorem Valid.workable (h : s.Valid) {started : Startup} (hstart : s.start = .ok started) :
    started.embedder.Workable := by
  cases hendpoint : s.endpoint with
  | error f => simp [start, hendpoint] at hstart
  | ok e =>
    rw [start_of_endpoint hendpoint] at hstart
    split at hstart
    · cases hstart
    · next hle =>
      obtain rfl := Except.ok.inj hstart
      exact ⟨h.tokens, h.concurrent, Nat.le_of_not_lt hle, h.attempts, h.timeout⟩

/-! ## §3 What validity is worth -/

/-- Valid settings crash the start exactly if an Ollama server is named by no URL, or if more
requests may run at once than a pool has permits and no key is missing.  A started program can work.
There is no crash with a base URL for the web that is not just a scheme and a number, and with a
limit within bounds.  But of valid settings any base URL and any limit may be changed without being
refused, also into ones that crash.  Which texts are URLs is said by `Url.ofText?`, with what
`UrlHost.asciiName?` leaves unchecked. -/
theorem valid_crashes_iff (hvalid : s.validate = .ok ()) :
    (s.Crashes ↔
      (s.embedding.kind = .ollama ∧
        Url.ofText? (Ollama.hostAndPort s.embedding.baseUrl).1 = none) ∨
      (maxPermits < s.embedding.maxConcurrentRequests ∧
        (s.embedding.kind = .openAi → s.embedding.apiKey.isSome = true))) ∧
    (∀ started, s.start = .ok started → started.embedder.Workable) ∧
    (∀ u, Url.ofText? s.embedding.baseUrl = some u → (u.scheme = "http" ∨ u.scheme = "https") →
      ¬ Ollama.BareNumber s.embedding.baseUrl →
      s.embedding.maxConcurrentRequests ≤ maxPermits → ¬ s.Crashes) ∧
    ∀ baseUrl concurrent, Text.allBlank baseUrl = false → 0 < concurrent →
      (s.withServer .ollama baseUrl concurrent).validate = .ok () ∧
        (':' ∉ baseUrl.toList ∨ Ollama.BareNumber baseUrl ∨ maxPermits < concurrent →
          (s.withServer .ollama baseUrl concurrent).Crashes) := by
  rw [validate_eq_ok_iff] at hvalid
  refine ⟨?_, fun started => hvalid.workable, ?_, ?_⟩
  · rw [crashes_iff, Ollama.endpoint?_eq_none_iff]
  · -- neither cause is there with a URL for the web and a limit within bounds
    intro u hu hscheme hbare hle hcrash
    rcases crashes_iff.1 hcrash with ⟨-, hnone⟩ | ⟨hlt, -⟩
    · rw [Ollama.endpoint?_eq hu (Url.isSome_defaultPort? hscheme), if_neg hbare] at hnone
      cases hnone
    · exact absurd hle (Nat.not_le_of_lt hlt)
  · intro baseUrl concurrent hurl hconcurrent
    refine ⟨validate_eq_ok_iff.2 (hvalid.withServer .ollama hurl hconcurrent), fun h => ?_⟩
    rw [crashes_iff]
    rcases h with hcolon | hbare | hlt
    · exact .inl ⟨rfl, Ollama.endpoint?_eq_none (.inl hcolon)⟩
    · exact .inl ⟨rfl, Ollama.endpoint?_eq_none (.inr hbare)⟩
    · exact .inr ⟨hlt, fun hkind => by cases hkind⟩

/-- Settings that name a server by its host alone are valid, and crash the start. -/
theorem valid_crashes_iff_sample :
    validate { embedding := { kind := .ollama, baseUrl := "localhost" } } = .ok () ∧
      Crashes { embedding := { kind := .ollama, baseUrl := "localhost" } } := by
  have hvalid : validate { embedding := { kind := .ollama, baseUrl := "localhost" } } = .ok () := by
    decide
  refine ⟨hvalid, (valid_crashes_iff hvalid).1.2 (.inl ⟨rfl, ?_⟩)⟩
  decide

end Settings

end CodeIndex
