import IssueMarkdown.Web.Ipv6
import IssueMarkdown.Web.Percent

/-! # Hosts

A host is a name, four numbers with dots between them, or an IPv6 address in brackets. A name of
the web is written in ASCII, as the tables of Unicode have it, which are given from outside.
-/

namespace IssueMarkdown.Web.Host

open Percent Text

/-- Characters that stand for something else in an address, and so for no part of a host. -/
def isDelimiter (c : Char) : Bool := " #/:<>?@[\\]^|".toList.contains c

/-- Characters that no host of the web may contain. -/
def isForbidden (c : Char) : Bool := !isGraphic c || c == '%' || isDelimiter c

/-- A host in brackets is an IPv6 address. -/
def bracketed? (t : Text) : Option Text :=
  match t with
  | '[' :: r =>
    if r.getLast? = some ']' then
      (Ipv6.parse? r.dropLast).map fun gs => '[' :: (Ipv6.text gs ++ [']'])
    else none
  | _ => none

/-- A number of an address in dotted notation: hexadecimal after `0x`, octal after `0`. -/
def dottedNumber? (t : Text) : Option Nat :=
  let read (base : Nat) (ds : Text) : Option Nat := ds.foldlM (fun n c => do
    let d ← hexValue? c
    if d < base then some (base * n + d) else none) 0
  match t with
  | '0' :: 'x' :: ds => read 16 ds
  | '0' :: 'X' :: ds => read 16 ds
  | '0' :: ds => read 8 ds
  | [] => none
  | ds => read 10 ds

/-- The labels of a host; a dot at its end counts for nothing. -/
def labels (t : Text) : List Text :=
  let ls := splitBy (· == '.') t
  if ls.length > 1 ∧ ls.getLast? = some [] then ls.dropLast else ls

/-- Whether a host is meant as four numbers. -/
def isDotted (t : Text) : Bool :=
  match (labels t).getLast? with
  | some l => (!l.isEmpty && l.all Char.isDigit) || (dottedNumber? l).isSome
  | none => false

/-- Four numbers with dots between them; the last one given may fill several places. -/
def dotted? (t : Text) : Option Text := do
  let ns ← (labels t).mapM dottedNumber?
  let places := 4 - (ns.length - 1)
  let last ← ns.getLast?
  if ns.length > 4 || ns.dropLast.any (255 < ·) || Nat.pow 256 places ≤ last then none
  else
    let bytes := ns.dropLast ++
      (List.range places).map fun i => last / Nat.pow 256 (places - 1 - i) % 256
    return ['.'].intercalate (bytes.map (Nat.toDigits 10))

/-- A name that is in ASCII already, in lower case. Labels that stand for other characters are taken
as they are. -/
def inAscii? (t : Text) : Option Text :=
  if t.all (·.toNat < 0x80) then some (t.map Char.toLower) else none

/-- The host of a web scheme: decoded and in ASCII, and never empty. -/
def ofWeb? (toAscii? : Text → Option Text) (t : Text) : Option Text :=
  if t.head? = some '[' then bracketed? t
  else do
    let host ← toAscii? (← ofUtf8? (decode t))
    if host.isEmpty || host.any isForbidden then none
    else if isDotted host then dotted? host
    else some host

/-- The host of any other scheme, which may be empty. -/
def ofOther? (t : Text) : Option Text :=
  if t.head? = some '[' then bracketed? t
  else if t.any fun c => c == '\x00' || isDelimiter c then none
  else some (encodeBy isGraphic t)

/-- Whether a request can name the host: an address in brackets, or a name of unreserved
characters and of the delimiters that names may hold. -/
def isRequestable (host : Text) : Bool :=
  host.head? == some '[' || host.all fun c => isUnreserved c || "!$&'()*+,;=".toList.contains c

end IssueMarkdown.Web.Host
