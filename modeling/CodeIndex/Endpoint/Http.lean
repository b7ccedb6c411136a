import CodeIndex.Duration

/-!
# HTTP exchanges

What is sent to an endpoint and what comes back, as far as providers look at it.
-/

namespace CodeIndex

/-- A request with a body. -/
structure HttpRequest where
  method : String
  url : String
  headers : List (String × String)
  body : String
  deriving DecidableEq, Inhabited, Repr

/-- A response. -/
structure HttpResponse where
  status : Nat
  headers : List (String × String)
  /-- `none` when the connection broke before the body was complete. -/
  body : Option String
  deriving DecidableEq, Inhabited, Repr

namespace HttpResponse

/-- The status of an answer to too many requests. -/
def tooManyRequests : Nat := 429

/-- Whether the server is at fault. -/
def isServerError (r : HttpResponse) : Bool := 500 ≤ r.status && r.status < 600

/-- Whether the request was granted. -/
def isSuccess (r : HttpResponse) : Bool := 200 ≤ r.status && r.status < 300

/-- The first header of a name, whatever the case of its letters. -/
def header? (r : HttpResponse) (name : String) : Option String :=
  (r.headers.find? fun (n, _) => n.toList.map Char.toLower == name.toList.map Char.toLower).map
    Prod.snd

end HttpResponse

/-- A request that was answered: how long it took to have all of the answer, and the answer.  The
client goes where it is redirected by itself, up to ten times, so the answer is the one at the end
of that way. -/
structure HttpExchange where
  duration : Duration
  response : HttpResponse
  deriving DecidableEq, Inhabited, Repr

namespace HttpStatus

/-- The registered reasons of statuses. -/
def reasons : List (Nat × String) :=
  [(100, "Continue"), (101, "Switching Protocols"), (102, "Processing"), (103, "Early Hints"),
    (200, "OK"), (201, "Created"), (202, "Accepted"), (203, "Non Authoritative Information"),
    (204, "No Content"), (205, "Reset Content"), (206, "Partial Content"), (207, "Multi-Status"),
    (208, "Already Reported"), (226, "IM Used"), (300, "Multiple Choices"),
    (301, "Moved Permanently"), (302, "Found"), (303, "See Other"), (304, "Not Modified"),
    (305, "Use Proxy"), (307, "Temporary Redirect"), (308, "Permanent Redirect"),
    (400, "Bad Request"), (401, "Unauthorized"), (402, "Payment Required"), (403, "Forbidden"),
    (404, "Not Found"), (405, "Method Not Allowed"), (406, "Not Acceptable"),
    (407, "Proxy Authentication Required"), (408, "Request Timeout"), (409, "Conflict"),
    (410, "Gone"), (411, "Length Required"), (412, "Precondition Failed"),
    (413, "Payload Too Large"), (414, "URI Too Long"), (415, "Unsupported Media Type"),
    (416, "Range Not Satisfiable"), (417, "Expectation Failed"), (418, "I'm a teapot"),
    (421, "Misdirected Request"), (422, "Unprocessable Entity"), (423, "Locked"),
    (424, "Failed Dependency"), (425, "Too Early"), (426, "Upgrade Required"),
    (428, "Precondition Required"), (429, "Too Many Requests"),
    (431, "Request Header Fields Too Large"), (451, "Unavailable For Legal Reasons"),
    (500, "Internal Server Error"), (501, "Not Implemented"), (502, "Bad Gateway"),
    (503, "Service Unavailable"), (504, "Gateway Timeout"), (505, "HTTP Version Not Supported"),
    (506, "Variant Also Negotiates"), (507, "Insufficient Storage"), (508, "Loop Detected"),
    (510, "Not Extended"), (511, "Network Authentication Required")]

/-- A status with its reason. -/
def text (status : Nat) : String :=
  toString status ++ " " ++ (reasons.lookup status).getD "<unknown status code>"

end HttpStatus

end CodeIndex
