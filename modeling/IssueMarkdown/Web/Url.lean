import IssueMarkdown.Web.Host
import IssueMarkdown.Web.Path

/-! # Absolute web addresses

An address is read into its parts and written back in normal form: the scheme in lower case and
the host in ASCII, a default endpoint left out, dot segments resolved, and characters encoded that
may not stand where they stand.
-/

namespace IssueMarkdown.Web

open Percent Text

structure Authority where
  username : Text
  password : Option Text
  host : Text
  endpoint : Option Nat
  deriving DecidableEq, Repr

structure Url where
  scheme : Text
  authority : Option Authority
  path : Path
  query : Option Text
  fragment : Option Text
  deriving DecidableEq, Repr

namespace Url

/-! ## Schemes -/

def isSchemeChar (c : Char) : Bool := c.isAlphanum || c == '+' || c == '-' || c == '.'

/-- The scheme in lower case and what follows its colon. -/
def scheme? (t : Text) : Option (Text × Text) :=
  match t with
  | [] => none
  | c :: _ =>
    if !c.isAlpha then none
    else (after? [':'] (t.dropWhile isSchemeChar)).map
      ((t.takeWhile isSchemeChar).map Char.toLower, ·)

/-- Schemes whose addresses always have a host and a rooted path, with their default endpoints. -/
def defaultEndpoints : List (Text × Nat) :=
  [("http".toList, 80), ("https".toList, 443), ("ws".toList, 80), ("wss".toList, 443),
    ("ftp".toList, 21)]

def defaultEndpoint? (scheme : Text) : Option Nat := defaultEndpoints.lookup scheme

/-! ## Authorities -/

/-- Splits at the last `@`. -/
def splitUserinfo (t : Text) : Option Text × Text :=
  if t.contains '@' then
    let host := (t.reverse.takeWhile (· != '@')).reverse
    (some (t.take (t.length - host.length - 1)), host)
  else (none, t)

/-- A name and a password, which is absent if it is empty. -/
def userinfo (t : Text) : Text × Option Text :=
  let name := t.takeWhile (· != ':')
  let word := (t.dropWhile (· != ':')).drop 1
  (encodeBy keepsInUserinfo name,
    if word.isEmpty then none else some (encodeBy keepsInUserinfo word))

/-- Splits at the first colon outside of brackets. -/
def splitHost (inBrackets : Bool) : Text → Text × Text
  | [] => ([], [])
  | c :: t =>
    if c == ':' && !inBrackets then ([], c :: t)
    else
      let (host, r) := splitHost (c == '[' || (inBrackets && c != ']')) t
      (c :: host, r)

/-- The number of an endpoint and what follows it, a backslash if it is anything. No digits
stand for the default. -/
def endpoint? (default : Option Nat) : Text → Option (Option Nat × Text)
  | ':' :: t =>
    let ds := t.takeWhile Char.isDigit
    let n := decimalValue ds
    let r := t.dropWhile Char.isDigit
    if 65535 < n || r.head?.any (· != '\\') then none
    else some (if ds.isEmpty ∨ default = some n then none else some n, r)
  | t => some (none, t)

/-- An authority and what is left of a text behind its endpoint. Without a host, there is no
endpoint, and nobody before an `@`. -/
def authority? (toAscii? : Text → Option Text) (scheme t : Text) : Option (Authority × Text) := do
  let (user, place) := splitUserinfo t
  let (hostText, r) := splitHost false place
  let (name, word) := userinfo (user.getD [])
  let named := user = some [] || !name.isEmpty || word.isSome
  if hostText.isEmpty && (named || r.head? == some ':') then none
  let default := defaultEndpoint? scheme
  let host ← if default.isSome then Host.ofWeb? toAscii? hostText else Host.ofOther? hostText
  let (endpoint, r) ← endpoint? default r
  return (⟨name, word, host, endpoint⟩, r)

/-! ## Hierarchies -/

def isSlash (c : Char) : Bool := c == '/'

def isEitherSlash (c : Char) : Bool := c == '/' || c == '\\'

/-- A host is due, after any number of slashes, which may lean either way. -/
def webHierarchy? (toAscii? : Text → Option Text) (scheme t : Text) :
    Option (Option Authority × Path) := do
  let t := t.dropWhile isEitherSlash
  let (a, _) ← authority? toAscii? scheme (t.takeWhile (!isEitherSlash ·))
  return (some a,
    .rooted (Path.segments isEitherSlash ((t.dropWhile (!isEitherSlash ·)).drop 1)))

/-- A file of a host, unless a drive is named. -/
def file (host t : Text) : Option Authority × Path :=
  let (segments, onDrive) := Path.fileSegments isEitherSlash t
  (some ⟨[], none, if onDrive then [] else host, none⟩, .rooted segments)

/-- A host may stand after two slashes, unless it is a drive; this machine needs no name. -/
def fileHierarchy? (toAscii? : Text → Option Text) (t : Text) :
    Option (Option Authority × Path) :=
  let slashes := ((t.take 2).takeWhile isEitherSlash).length
  let t := t.drop slashes
  let name := t.takeWhile (!isEitherSlash ·)
  let r := t.dropWhile (!isEitherSlash ·)
  if slashes < 2 ∨ Path.isDrive name then some (file [] t)
  else if name.isEmpty then some (file [] r)
  else (Host.ofWeb? toAscii? name).map fun host =>
    if host == "localhost".toList then file [] r else file host (r.drop 1)

/-- An authority stands after two slashes, a rooted path after one. -/
def otherHierarchy? (toAscii? : Text → Option Text) (scheme : Text) :
    Text → Option (Option Authority × Path)
  | '/' :: '/' :: t => do
    let (a, r) ← authority? toAscii? scheme (t.takeWhile (!isSlash ·))
    let path := t.dropWhile (!isSlash ·)
    if r.isEmpty && path.isEmpty then return (some a, .rooted [])
    else
      let t := if r.isEmpty then path.drop 1 else r ++ path
      return (some a, .rooted (Path.segments isSlash t))
  | '/' :: t => some (none, .rooted (Path.segments isSlash t))
  | t => some (none, .rootless (encodeBy isGraphic t))

def isFile (scheme : Text) : Bool := scheme == "file".toList

/-- The authority and the path of an address of a scheme. -/
def hierarchy? (toAscii? : Text → Option Text) (scheme t : Text) :
    Option (Option Authority × Path) :=
  if (defaultEndpoint? scheme).isSome then webHierarchy? toAscii? scheme t
  else if isFile scheme then fileHierarchy? toAscii? t
  else otherHierarchy? toAscii? scheme t

/-! ## Reading and writing -/

/-- An address without control characters and blanks around it, and without line breaks and
tabs anywhere. -/
def cleaned (t : Text) : Text :=
  (dropEndWhile (· ≤ ' ') (t.dropWhile (· ≤ ' '))).filter fun c =>
    c != '\t' && c != '\n' && c != '\r'

/-- Splits at the first `mark`, which belongs to neither part. -/
def cut (mark : Char) (t : Text) : Text × Option Text :=
  (t.takeWhile (· != mark), after? [mark] (t.dropWhile (· != mark)))

/-- Reads an absolute address. -/
def parse? (toAscii? : Text → Option Text) (t : Text) : Option Url := do
  let (scheme, t) ← scheme? (cleaned t)
  let (t, fragment) := cut '#' t
  let (t, query) := cut '?' t
  let (authority, path) ← hierarchy? toAscii? scheme t
  let web := (defaultEndpoint? scheme).isSome || isFile scheme
  return ⟨scheme, authority, path, query.map (encodeBy (keepsInQuery web)),
    fragment.map (encodeBy keepsInFragment)⟩

def Authority.text (a : Authority) : Text :=
  let word := (a.password.map (':' :: ·)).getD []
  let user := a.username ++ word
  (if user.isEmpty then [] else user ++ ['@']) ++ a.host ++
    (a.endpoint.map (':' :: Nat.toDigits 10 ·)).getD []

/-- An authority and a path. A path without an authority must not look like one, so a dot
segment goes before two slashes. -/
def hierarchyText (authority : Option Authority) (path : Path) : Text :=
  match authority with
  | some a => '/' :: '/' :: (Authority.text a ++ path.text)
  | none => (if path.text.take 2 == ['/', '/'] then ['/', '.'] else []) ++ path.text

/-- The address in normal form. -/
def text (u : Url) : Text :=
  u.scheme ++ ':' :: (hierarchyText u.authority u.path ++ (u.query.map ('?' :: ·)).getD [] ++
    (u.fragment.map ('#' :: ·)).getD [])

/-! ## Requests -/

/-- How long an address may be that a request is sent to. -/
def maxLength : Nat := 65534

/-- Whether a request over HTTP can be sent to the address. -/
def isRequestable (u : Url) : Bool :=
  (u.scheme == "http".toList || u.scheme == "https".toList) &&
    u.authority.all (Host.isRequestable ·.host) && u.text.length ≤ maxLength

/-- The user of an address with a password, decoded, and the address without them. Names that
are not UTF-8 stay where they are. -/
def takeUser (u : Url) : Option (Text × Text) × Url :=
  match u.authority with
  | none => (none, u)
  | some a =>
    if a.username.isEmpty && a.password.isNone then (none, u)
    else match ofUtf8? (decode a.username) with
      | none => (none, u)
      | some name =>
        let word := a.password.bind fun p => ofUtf8? (decode p)
        if name.isEmpty && word.isNone then (none, u)
        else (some (name, word.getD []),
          { u with authority := some { a with username := [], password := none } })

end Url

end IssueMarkdown.Web
