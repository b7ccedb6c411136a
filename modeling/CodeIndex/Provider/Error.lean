import CodeIndex.Duration

/-!
# Provider errors

Why a request for an embedding came back without a vector.  An error is *transient* when the same
request may succeed later.
-/

namespace CodeIndex

/-- Why a request failed. -/
inductive ProviderError where
  /-- The exchange itself failed; `transient` when the endpoint could not be reached. -/
  | http (transient : Bool) (detail : String)
  /-- The body is not the document that was asked for. -/
  | json (detail : String)
  /-- Too many requests, perhaps with a hint how long to wait. -/
  | rateLimited (retryAfter : Option Duration)
  /-- The provider is down for the moment. -/
  | unavailable (status : Nat)
  /-- No answer within the limit. -/
  | timeout (limit : Duration)
  /-- An answer without a vector. -/
  | emptyResponse (provider : String)
  /-- The provider refuses this request. -/
  | rejected (provider message : String)
  | other (message : String)
  deriving DecidableEq, Inhabited, Repr

namespace ProviderError

/-- Whether the same request may succeed later. -/
def isTransient : ProviderError → Bool
  | http transient _ => transient
  | rateLimited _ => true
  | unavailable _ => true
  | timeout _ => true
  | json _ => false
  | emptyResponse _ => false
  | rejected _ _ => false
  | other _ => false

/-- The wording of an error. -/
def message : ProviderError → String
  | http _ detail => "HTTP request failed: " ++ detail
  | json detail => "JSON parse failed: " ++ detail
  | rateLimited _ => "rate limited"
  | unavailable status => "provider unavailable (status " ++ toString status ++ ")"
  | timeout limit => "request timed out after " ++ limit.text
  | emptyResponse provider => "empty response from " ++ provider
  | rejected provider message =>
    "embedding request rejected by " ++ provider ++ ": " ++ message
  | other message => message

end ProviderError

end CodeIndex
