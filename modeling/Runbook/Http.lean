import Runbook.Text.Blank
import Runbook.Text.Numeral

/-!
# Requests and answers of the hypertext protocol

A request is sent to an address with headers and a text. An answer has a status, headers and a
text; the status prints with the phrase that is registered for it, and may announce that there is
no text. Names of headers are looked up without regard to ASCII case.
-/

set_option autoImplicit false

namespace Runbook.Http

/-- A request that posts a text. -/
structure Request where
  url : String
  headers : List (String × String)
  body : String
  deriving DecidableEq, Repr, Inhabited

structure Answer where
  status : Nat
  headers : List (String × String)
  body : String
  deriving DecidableEq, Repr, Inhabited

/-! ## Statuses -/

/-- The registered phrases. -/
def phrases : List (Nat × String) :=
  [ (100, "Continue"), (101, "Switching Protocols"), (102, "Processing"), (103, "Early Hints"),
    (200, "OK"), (201, "Created"), (202, "Accepted"), (203, "Non Authoritative Information"),
    (204, "No Content"), (205, "Reset Content"), (206, "Partial Content"),
    (207, "Multi-Status"), (208, "Already Reported"), (226, "IM Used"),
    (300, "Multiple Choices"), (301, "Moved Permanently"), (302, "Found"), (303, "See Other"),
    (304, "Not Modified"), (305, "Use Proxy"), (307, "Temporary Redirect"),
    (308, "Permanent Redirect"),
    (400, "Bad Request"), (401, "Unauthorized"), (402, "Payment Required"), (403, "Forbidden"),
    (404, "Not Found"), (405, "Method Not Allowed"), (406, "Not Acceptable"),
    (407, "Proxy Authentication Required"), (408, "Request Timeout"), (409, "Conflict"),
    (410, "Gone"), (411, "Length Required"), (412, "Precondition Failed"),
    (413, "Payload Too Large"), (414, "URI Too Long"), (415, "Unsupported Media Type"),
    (416, "Range Not Satisfiable"), (417, "Expectation Failed"), (418, "I'm a teapot"),
    (421, "Misdirected Request"), (422, "Unprocessable Entity"), (423, "Locked"),
    (424, "Failed Dependency"), (425, "Too Early"), (426, "Upgrade Required"),
    (428, "Precondition Required"), (429, "Too Many Requests"),
    (431, "Request Header Fields Too Large"), (451, "Unavailable For Legal Reasons"),
    (500, "Internal Server Error"), (501, "Not Implemented"), (502, "Bad Gateway"),
    (503, "Service Unavailable"), (504, "Gateway Timeout"), (505, "HTTP Version Not Supported"),
    (506, "Variant Also Negotiates"), (507, "Insufficient Storage"), (508, "Loop Detected"),
    (510, "Not Extended"), (511, "Network Authentication Required") ]

/-- A status with its phrase. -/
def statusText (status : Nat) : String :=
  s!"{status} " ++ ((phrases.lookup status).getD "<unknown status code>")

/-- The request was carried out. -/
def isSuccess (status : Nat) : Bool := 200 ≤ status && status < 300

/-! ## Contents -/

/-- What an answer holds: two statuses announce that there is nothing, whatever follows. -/
def Answer.content (a : Answer) : String :=
  if a.status = 204 || a.status = 304 then "" else a.body

/-- The content as a text, without the mark that tells the order of its bytes. -/
def Answer.text (a : Answer) : String :=
  match a.content.toList with
  | '\ufeff' :: cs => String.ofList cs
  | _ => a.content

/-! ## Headers -/

def lowerName (s : String) : String := String.map Char.toLower s

/-- The first header of that name. -/
def header? (name : String) (headers : List (String × String)) : Option String :=
  (headers.find? fun h => lowerName h.1 = lowerName name).map (·.2)

/-- The text can stand as the value of a header: no control characters but the tab. -/
def isHeaderText (s : String) : Bool :=
  s.toList.all fun c => c = '\t' || (' ' ≤ c && c ≠ '\x7f')

/-- Nothing in the headers keeps the request from being sent. -/
def Request.isSendable (r : Request) : Bool := r.headers.all fun h => isHeaderText h.2

/-- After how many seconds the server wants to be asked again, if it says so in whole seconds. -/
def retryAfter? (headers : List (String × String)) : Option Nat := do
  let value ← header? "retry-after" headers
  if value.toList.all fun c => c = '\t' || (' ' ≤ c && c < '\x7f') then
    Text.word? (Text.trim value)
  else none

end Runbook.Http
