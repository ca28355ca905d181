import IssueMarkdown.Text

/-! # Base64

Three bytes become four letters of the standard alphabet; a shorter last group is padded.
-/

namespace IssueMarkdown.Web.Base64

/-- The letter of a number below sixty-four. -/
def letter (n : Nat) : Char :=
  if n < 26 then Char.ofNat ('A'.toNat + n)
  else if n < 52 then Char.ofNat ('a'.toNat + (n - 26))
  else if n < 62 then Char.ofNat ('0'.toNat + (n - 52))
  else if n = 62 then '+' else '/'

/-- The four letters of a group of twenty-four bits. -/
def group (n : Nat) : Text :=
  [letter (n / 262144), letter (n / 4096 % 64), letter (n / 64 % 64), letter (n % 64)]

def encode : List UInt8 → Text
  | [] => []
  | [a] => (group (a.toNat * 65536)).take 2 ++ ['=', '=']
  | [a, b] => (group (a.toNat * 65536 + b.toNat * 256)).take 3 ++ ['=']
  | a :: b :: c :: bs => group (a.toNat * 65536 + b.toNat * 256 + c.toNat) ++ encode bs

end IssueMarkdown.Web.Base64
