import CodeIndex.Endpoint.Host

/-!
# URLs

Of an absolute URL only the parts that say whom to contact are kept: scheme, host and port.  What
follows the authority is never malformed.
-/

namespace CodeIndex

/-- Whom a URL contacts. -/
structure Url where
  scheme : String
  host : UrlHost
  /-- The port, unless it is the scheme's own. -/
  port : Option Nat
  deriving DecidableEq, Inhabited, Repr

namespace Url

/-- The port of a scheme, for the schemes that have one. -/
def defaultPort? : String → Option Nat
  | "http" => some 80
  | "https" => some 443
  | "ws" => some 80
  | "wss" => some 443
  | "ftp" => some 21
  | _ => none

/-- The text without the blanks around it and without tabs and line breaks. -/
def tidy (s : List Char) : List Char :=
  let isEdge := fun c : Char => c.toNat ≤ 0x20
  (((s.dropWhile isEdge).reverse.dropWhile isEdge).reverse).filter fun c =>
    c != '\t' && c != '\n' && c != '\r'

/-- The scheme of a URL, in small letters, and what follows its colon. -/
def scheme? (s : List Char) : Option (List Char × List Char) :=
  let isSchemeChar := fun c : Char => c.isAlphanum || c == '+' || c == '-' || c == '.'
  match s.takeWhile isSchemeChar, s.dropWhile isSchemeChar with
  | first :: more, ':' :: rest =>
    if first.isAlpha then some ((first :: more).map Char.toLower, rest) else none
  | _, _ => none

/-- Whether a character ends the authority; `special` when a backslash does too. -/
def endsAuthority (special : Bool) (c : Char) : Bool :=
  c == '/' || c == '?' || c == '#' || (special && c == '\\')

/-- What stands behind the last sign that parts the user from the host. -/
def withoutUser (authority : List Char) : List Char :=
  (authority.reverse.takeWhile (· != '@')).reverse

/-- The host of an authority, and the port's digits behind the colon if there is one.  A colon in
brackets belongs to the host. -/
def splitHost (inside : Bool) : List Char → List Char × Option (List Char)
  | [] => ([], none)
  | c :: rest =>
    if c = ':' ∧ ¬ inside then ([], some rest)
    else
      let inside := if c = '[' then true else if c = ']' then false else inside
      let (host, port) := splitHost inside rest
      (c :: host, port)

/-- The number that a port's digits stand for; no digits mean no port. -/
def port? : Option (List Char) → Option (Option Nat)
  | none => some none
  | some [] => some none
  | some ds =>
    if ds.all Char.isDigit then
      let n := ds.foldl (fun n d => n * 10 + (d.toNat - '0'.toNat)) 0
      if n < 65536 then some (some n) else none
    else none

/-- The URL with another port. -/
def withPort (u : Url) (port : Nat) : Url :=
  { u with port := if defaultPort? u.scheme = some port then none else some port }

/-- The URL of an authority. -/
def ofAuthority? (scheme : String) (special : Bool) (rest : List Char) : Option Url := do
  let authority := rest.takeWhile fun c => !endsAuthority special c
  let (hostText, portText) := splitHost false (withoutUser authority)
  let host ← if special then UrlHost.ofText? hostText else UrlHost.verbatim? hostText
  let port ← port? portText
  let u : Url := ⟨scheme, host, none⟩
  return match port with
    | some n => u.withPort n
    | none => u

/-- The URL of a text, if it is absolute and has a host.  Files have no host to contact. -/
def ofText? (s : String) : Option Url := do
  let (scheme, rest) ← scheme? (tidy s.toList)
  let name := String.ofList scheme
  if (defaultPort? name).isSome then
    ofAuthority? name true (rest.dropWhile fun c => c == '/' || c == '\\')
  else if name = "file" then none
  else
    match rest with
    | '/' :: '/' :: rest => ofAuthority? name false rest
    | _ => none

end Url

end CodeIndex
