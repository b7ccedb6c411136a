import CodeIndex.Endpoint.Http
import CodeIndex.Json.Decode
import CodeIndex.Json.Writer
import CodeIndex.Provider.Retry
import CodeIndex.Text.Basic

/-!
# OpenAI-compatible endpoints

A text is posted as JSON, and the answer holds a list of vectors of which the first counts.  An
endpoint that is busy or down may be asked again; any other answer without a vector is final.
-/

namespace CodeIndex.OpenAi

/-- The name of the provider in errors. -/
def providerName : String := "openai"

/-- A base URL without the slashes at its end. -/
def trimmedBase (baseUrl : String) : String :=
  String.ofList ((baseUrl.toList.reverse.dropWhile (· == '/')).reverse)

/-- The request for the vector of a text. -/
def request (key baseUrl model text : String) : HttpRequest where
  method := "POST"
  url := trimmedBase baseUrl ++ "/embeddings"
  headers := [("Authorization", "Bearer " ++ key), ("Content-Type", "application/json")]
  body := String.ofList
    (Json.writeObject [("input", Json.writeString text), ("model", Json.writeString model)])

/-- How long the endpoint asks to wait: a whole number of seconds. -/
def retryAfter? (r : HttpResponse) : Option Duration :=
  ((r.header? "retry-after").bind fun s => Text.natOfBits? 64 s.toList).map Duration.ofSeconds

/-- The vector in one item of an answer. -/
def asItem? (v : Json) : Option Embedding := do
  match ← Json.asFields? ["embedding"] v with
  | [embedding] => Json.requiredField? (Json.asList? Json.asSingle?) embedding
  | _ => none

/-- The vectors of an answer. -/
def asVectors? (v : Json) : Option (List Embedding) := do
  match ← Json.asFields? ["data"] v with
  | [data] => Json.requiredField? (Json.asList? asItem?) data
  | _ => none

/-- What the body of a granted request says. -/
def vectorOf (body : String) : Except ProviderError Embedding :=
  match (Json.ofText? body).bind asVectors? with
  | none => .error (.json "unexpected document")
  | some [] => .error (.emptyResponse providerName)
  | some (v :: _) => .ok v

/-- What a response says.  The status of a redirect counts as a rejection; it only gets here if the
client could not follow it, because the response does not say where to go. -/
def answer (r : HttpResponse) : Except ProviderError Embedding :=
  if r.status = HttpResponse.tooManyRequests then .error (.rateLimited (retryAfter? r))
  else if r.isServerError then .error (.unavailable r.status)
  else
    match r.body with
    | none => .error (.http false "incomplete body")
    | some body =>
      if r.isSuccess then vectorOf body
      else .error (.rejected providerName ("status " ++ HttpStatus.text r.status))

/-- An exchange as an attempt at a vector. -/
def attempt (x : HttpExchange) : Attempt Embedding := ⟨x.duration, answer x.response⟩

/-- The vector of a text, asked for as often as a policy allows; `exchanges n` is the exchange that
comes after `n` others. -/
def embed (p : RetryPolicy) (exchanges : Nat → HttpExchange) : RetryRun Embedding :=
  retry p fun n => attempt (exchanges n)

end CodeIndex.OpenAi
