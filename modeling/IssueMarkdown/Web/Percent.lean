import IssueMarkdown.Text.Utf8

/-! # Percent encoding

A character that may not stand for itself is written as its UTF-8 bytes, each as `%` and two
upper case hexadecimal digits.
-/

namespace IssueMarkdown.Web.Percent

open Text

/-- The upper case hexadecimal digit of a number below sixteen. -/
def hexDigit (n : Nat) : Char := Char.ofNat (if n < 10 then '0'.toNat + n else 'A'.toNat + n - 10)

def encodeByte (b : UInt8) : Text := ['%', hexDigit (b.toNat / 16), hexDigit (b.toNat % 16)]

/-- Encodes every character that `keep` does not let through. -/
def encodeBy (keep : Char → Bool) (t : Text) : Text :=
  t.flatMap fun c => if keep c then [c] else (String.utf8EncodeChar c).flatMap encodeByte

/-- ASCII letters, digits and `-`, `_`, `.`, `~`. -/
def isUnreserved (c : Char) : Bool :=
  c.isAlphanum || c == '-' || c == '_' || c == '.' || c == '~'

/-- Printable ASCII and the space; all other characters are encoded everywhere. -/
def isGraphic (c : Char) : Bool := ' ' ≤ c && c ≤ '~'

def keepsInFragment (c : Char) : Bool := isGraphic c && !" \"<>`".toList.contains c

def keepsInPath (c : Char) : Bool := keepsInFragment c && !"#?\x7b\x7d".toList.contains c

def keepsInUserinfo (c : Char) : Bool := keepsInPath c && !"/:;=@[\\]^|".toList.contains c

/-- Web schemes also encode the apostrophe in a query. -/
def keepsInQuery (web : Bool) (c : Char) : Bool :=
  isGraphic c && !" \"#<>".toList.contains c && !(web && c == '\'')

/-- A text as one part of an address. -/
def encode (t : Text) : Text := encodeBy isUnreserved t

/-- The byte that two hexadecimal digits write. -/
def byte? (a b : Char) : Option UInt8 := do
  return UInt8.ofNat ((← hexValue? a) * 16 + (← hexValue? b))

/-- The bytes that a text stands for; a `%` without two digits stands for itself. -/
def decode : Text → List UInt8
  | [] => []
  | ['%'] => ['%'.toUInt8]
  | ['%', a] => '%'.toUInt8 :: String.utf8EncodeChar a
  | '%' :: a :: b :: t =>
    match byte? a b with
    | some n => n :: decode t
    | none => '%'.toUInt8 :: decode (a :: b :: t)
  | c :: t => String.utf8EncodeChar c ++ decode t

end IssueMarkdown.Web.Percent
