import CodeIndex.Endpoint.Http
import CodeIndex.Endpoint.Url
import CodeIndex.Json.Decode
import CodeIndex.Json.Writer
import CodeIndex.Provider.Error
import CodeIndex.Text.Basic

/-!
# Ollama endpoints

The base URL of an Ollama server names a host and perhaps a port.  The port is what follows the last
colon, the slashes at the end aside; where no port number follows it the server's usual port is
taken, whatever the URL says.
-/

namespace CodeIndex.Ollama

/-- The port of a server that names none. -/
def usualPort : Nat := 11434

/-- The text without the slashes at its end. -/
def trimSlashes (s : List Char) : List Char := (s.reverse.dropWhile (· == '/')).reverse

/-- What stands before the last colon and what behind it, if there is one. -/
def splitLastColon? (s : List Char) : Option (List Char × List Char) :=
  match s.reverse.dropWhile (· != ':') with
  | [] => none
  | _ :: before => some (before.reverse, (s.reverse.takeWhile (· != ':')).reverse)

/-- The part of a base URL that names the host, and the port. -/
def hostAndPort (base : String) : String × Nat :=
  let s := trimSlashes base.toList
  match splitLastColon? s with
  | some (host, digits) =>
    match Text.natOfBits? 16 digits with
    | some port => (String.ofList host, port)
    | none => (String.ofList s, usualPort)
  | none => (String.ofList s, usualPort)

/-- Whom a client with this base URL contacts; `none` when the base is no URL that can have a
port. -/
def endpoint? (base : String) : Option Url :=
  let (host, port) := hostAndPort base
  (Url.ofText? host).map fun u => u.withPort port

/-! ## Exchanges -/

/-- The name of the provider in errors. -/
def providerName : String := "ollama"

/-- The authority of a URL. -/
def authorityText (u : Url) : String :=
  let host := match u.host with
    | .v6 pieces => "[" ++ UrlHost.v6Text pieces ++ "]"
    | host => host.text
  host ++ (u.port.map fun port => ":" ++ toString port).getD ""

/-- The request for the vector of a text. -/
def request (u : Url) (model text : String) : HttpRequest where
  method := "POST"
  url := u.scheme ++ "://" ++ authorityText u ++ "/api/embed"
  headers := [("Content-Type", "application/json")]
  body := String.ofList
    (Json.writeObject [("model", Json.writeString model), ("input", Json.writeString text)])

/-- The vectors of an answer. -/
def asVectors? (v : Json) : Option (List Embedding) := do
  match ← Json.asFields? ["embeddings"] v with
  | [embeddings] => Json.requiredField? (Json.asList? (Json.asList? Json.asSingle?)) embeddings
  | _ => none

/-- What a response says.  Whatever goes wrong counts as a server that is down for the moment. -/
def answer (r : HttpResponse) : Except ProviderError Embedding :=
  if r.isSuccess then
    match (r.body.bind Json.ofText?).bind asVectors? with
    | none => .error (.unavailable 0)
    | some [] => .error (.emptyResponse providerName)
    | some (v :: _) => .ok v
  else .error (.unavailable 0)

end CodeIndex.Ollama
