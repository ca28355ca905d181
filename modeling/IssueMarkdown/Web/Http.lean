import IssueMarkdown.Text.Decoding
import IssueMarkdown.Web.Base64
import IssueMarkdown.Web.Url

/-! # Requests and responses

Every request reads one address with Basic credentials. Either nothing reaches the site, or the
connection is closed without an answer, or a response comes back.
-/

namespace IssueMarkdown.Web

/-- What takes tables to be known: how the name of a domain is written in ASCII, if it is one, and
how the bytes of a character set are read, if the word for it is known. -/
structure Tables where
  toAscii? : Text → Option Text
  decoder? : Text → Option (List UInt8 → Text)

/-- Names that are in ASCII already, and no character set but UTF-8. -/
def Tables.ascii : Tables where
  toAscii? := Host.inAscii?
  decoder? _ := none

structure Credentials where
  email : Text
  token : Text
  deriving DecidableEq, Repr

/-- The value of an authorization header. -/
def basicAuthorization (name word : Text) : Text :=
  "Basic ".toList ++ Base64.encode (Text.utf8 (name ++ ':' :: word))

structure Request where
  method : Text
  url : Text
  authorization : Text
  contentType : Text
  deriving DecidableEq, Repr

/-- A response, with the word for its character set if its content type has one. -/
structure Response where
  status : Nat
  charset : Option Text
  body : List UInt8
  deriving DecidableEq, Repr

/-- What becomes of a request. -/
inductive Delivery where
  | refused
  | dropped
  | answered (response : Response)
  deriving DecidableEq, Repr

/-- Why there is no response. -/
inductive NetworkFault where
  | badAddress
  | notRequestable (url : Text)
  | noAnswer (url : Text)
  deriving DecidableEq, Repr

def NetworkFault.message : NetworkFault → Text
  | .badAddress => "builder error".toList
  | .notRequestable url => "builder error for url (".toList ++ url ++ [')']
  | .noAnswer url => "error sending request for url (".toList ++ url ++ [')']

/-- The request for an address. A user named in the address comes before the credentials. -/
def Request.get? (tables : Tables) (c : Credentials) (address : Text) :
    Except NetworkFault Request :=
  match Url.parse? tables.toAscii? address with
  | none => .error .badAddress
  | some u =>
    let (user, u) := u.takeUser
    if u.isRequestable then
      let (name, word) := user.getD (c.email, c.token)
      .ok ⟨"GET".toList, u.text, basicAuthorization name word, "application/json".toList⟩
    else .error (.notRequestable u.text)

namespace Response

def isSuccess (r : Response) : Bool := 200 ≤ r.status && r.status < 300

/-- The bytes of the body; two statuses never have one. -/
def content (r : Response) : List UInt8 :=
  if r.status == 204 || r.status == 304 then [] else r.body

/-- The content as a text. A byte order mark tells more than the word for a character set, and
where there is neither, the content is in UTF-8. -/
def shown (tables : Tables) (r : Response) : Text :=
  match r.content with
  | 0xef :: 0xbb :: 0xbf :: bytes => Text.lossy bytes
  | 0xff :: 0xfe :: bytes => Text.utf16 false bytes
  | 0xfe :: 0xff :: bytes => Text.utf16 true bytes
  | bytes => ((r.charset.bind tables.decoder?).getD Text.lossy) bytes

end Response

/-- The reason phrases of the registered status codes. -/
def reason? : Nat → Option String
  | 100 => some "Continue"
  | 101 => some "Switching Protocols"
  | 102 => some "Processing"
  | 103 => some "Early Hints"
  | 200 => some "OK"
  | 201 => some "Created"
  | 202 => some "Accepted"
  | 203 => some "Non Authoritative Information"
  | 204 => some "No Content"
  | 205 => some "Reset Content"
  | 206 => some "Partial Content"
  | 207 => some "Multi-Status"
  | 208 => some "Already Reported"
  | 226 => some "IM Used"
  | 300 => some "Multiple Choices"
  | 301 => some "Moved Permanently"
  | 302 => some "Found"
  | 303 => some "See Other"
  | 304 => some "Not Modified"
  | 305 => some "Use Proxy"
  | 307 => some "Temporary Redirect"
  | 308 => some "Permanent Redirect"
  | 400 => some "Bad Request"
  | 401 => some "Unauthorized"
  | 402 => some "Payment Required"
  | 403 => some "Forbidden"
  | 404 => some "Not Found"
  | 405 => some "Method Not Allowed"
  | 406 => some "Not Acceptable"
  | 407 => some "Proxy Authentication Required"
  | 408 => some "Request Timeout"
  | 409 => some "Conflict"
  | 410 => some "Gone"
  | 411 => some "Length Required"
  | 412 => some "Precondition Failed"
  | 413 => some "Payload Too Large"
  | 414 => some "URI Too Long"
  | 415 => some "Unsupported Media Type"
  | 416 => some "Range Not Satisfiable"
  | 417 => some "Expectation Failed"
  | 418 => some "I'm a teapot"
  | 421 => some "Misdirected Request"
  | 422 => some "Unprocessable Entity"
  | 423 => some "Locked"
  | 424 => some "Failed Dependency"
  | 425 => some "Too Early"
  | 426 => some "Upgrade Required"
  | 428 => some "Precondition Required"
  | 429 => some "Too Many Requests"
  | 431 => some "Request Header Fields Too Large"
  | 451 => some "Unavailable For Legal Reasons"
  | 500 => some "Internal Server Error"
  | 501 => some "Not Implemented"
  | 502 => some "Bad Gateway"
  | 503 => some "Service Unavailable"
  | 504 => some "Gateway Timeout"
  | 505 => some "HTTP Version Not Supported"
  | 506 => some "Variant Also Negotiates"
  | 507 => some "Insufficient Storage"
  | 508 => some "Loop Detected"
  | 510 => some "Not Extended"
  | 511 => some "Network Authentication Required"
  | _ => none

/-- A status code with its reason phrase. -/
def statusLine (status : Nat) : Text :=
  Nat.toDigits 10 status ++ ' ' :: ((reason? status).getD "<unknown status code>").toList

end IssueMarkdown.Web
