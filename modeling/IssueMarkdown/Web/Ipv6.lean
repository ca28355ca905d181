import IssueMarkdown.Text

/-! # IPv6 addresses

An address is eight groups of sixteen bits, written in hexadecimal with colons between them.
Two colons in a row stand for groups of zeros, and the last two groups may be written as four
bytes with dots between them.
-/

namespace IssueMarkdown.Web.Ipv6

open Text

/-- One to four hexadecimal digits. -/
def group? (t : Text) : Option Nat :=
  if t.isEmpty || 4 < t.length then none
  else t.foldlM (fun n c => (hexValue? c).map (16 * n + ·)) 0

/-- A decimal number below 256 without leading zeros. -/
def byte? (t : Text) : Option Nat :=
  if t.isEmpty || !t.all Char.isDigit || (t.head? == some '0' && 1 < t.length) ||
    255 < decimalValue t then none
  else some (decimalValue t)

/-- Four bytes with dots between them, as two groups. -/
def dotted? (t : Text) : Option (List Nat) :=
  match (splitBy (· == '.') t).mapM byte? with
  | some [a, b, c, d] => some [256 * a + b, 256 * c + d]
  | _ => none

/-- Groups of which the last may be dotted. -/
def lastGroups? : List Text → Option (List Nat)
  | [] => some []
  | [t] => if t.contains '.' then dotted? t else (group? t).map ([·])
  | t :: ts => do return (← group? t) :: (← lastGroups? ts)

/-- The groups on one side of a double colon, where there may be none. -/
def side? (read : List Text → Option (List Nat)) (t : Text) : Option (List Nat) :=
  if t.isEmpty then some [] else read (splitBy (· == ':') t)

/-- Splits at the first double colon. -/
def splitDouble? : Text → Option (Text × Text)
  | [] => none
  | ':' :: ':' :: t => some ([], t)
  | c :: t => (splitDouble? t).map fun (l, r) => (c :: l, r)

/-- The eight groups of an address. A double colon stands for at least one of them. -/
def parse? (t : Text) : Option (List Nat) :=
  match splitDouble? t with
  | none => (side? lastGroups? t).filter (·.length == 8)
  | some (l, r) => do
    let front ← side? (·.mapM group?) l
    let back ← side? lastGroups? r
    if front.length + back.length < 8 then
      some (front ++ List.replicate (8 - front.length - back.length) 0 ++ back)
    else none

/-- The first of the longest runs of zeros: where it begins and how long it is. -/
def zeroRun (gs : List Nat) : Nat × Nat :=
  let runs := (List.range gs.length).map fun i => (i, ((gs.drop i).takeWhile (· == 0)).length)
  runs.foldl (fun best r => if best.2 < r.2 then r else best) (0, 0)

def groupTexts (gs : List Nat) : Text := [':'].intercalate (gs.map (Nat.toDigits 16))

/-- An address in normal form: two colons stand for the longest run of zeros, if it is longer
than one. -/
def text (gs : List Nat) : Text :=
  let (i, n) := zeroRun gs
  if n < 2 then groupTexts gs
  else groupTexts (gs.take i) ++ [':', ':'] ++ groupTexts (gs.drop (i + n))

end IssueMarkdown.Web.Ipv6
