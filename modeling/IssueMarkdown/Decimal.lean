import IssueMarkdown.Binary64
import IssueMarkdown.Text

/-! # Decimal literals

A literal is a sign, digits with at most one point anywhere among them, and a power of ten.
It denotes an exact rational number, which is rounded once.
-/

namespace IssueMarkdown

/-- The number `± digits · 10 ^ exponent`. -/
structure Decimal where
  negative : Bool
  digits : Nat
  exponent : Int
  deriving DecidableEq, Repr

namespace Decimal

open Text

/-- A sign, if there is one, and whether it is a minus. -/
def sign : Text → Bool × Text
  | '-' :: t => (true, t)
  | '+' :: t => (false, t)
  | t => (false, t)

/-- A whole number with an optional sign and nothing after it. -/
def signed? (t : Text) : Option Int :=
  let (neg, ds) := sign t
  if ds.isEmpty || !ds.all Char.isDigit then none
  else some (if neg then -decimalValue ds else decimalValue ds)

/-- The power of ten at the end of a literal. -/
def power? : Text → Option Int
  | [] => some 0
  | c :: t => if c == 'e' || c == 'E' then signed? t else none

/-- The digits after the point, and what follows them. -/
def fraction : Text → Text × Text
  | '.' :: t => (t.takeWhile Char.isDigit, t.dropWhile Char.isDigit)
  | t => ([], t)

/-- Reads a literal that fills the whole text. -/
def parse? (t : Text) : Option Decimal :=
  let (neg, t) := sign t
  let whole := t.takeWhile Char.isDigit
  let (frac, rest) := fraction (t.dropWhile Char.isDigit)
  if (whole ++ frac).isEmpty then none
  else (power? rest).map fun e => ⟨neg, decimalValue (whole ++ frac), e - frac.length⟩

/-- The binary64 number nearest to the magnitude; none if it is beyond the greatest one.
Powers of ten far outside the range of the format are settled without being computed. -/
def nearest? (d : Decimal) : Option Binary64 :=
  if d.digits = 0 ∨ d.exponent + d.digits.log2 / 3 + 1 < -400 then some .zero
  else if 400 < d.exponent then none
  else Binary64.nearest? (d.digits * Nat.pow 10 d.exponent.toNat) (Nat.pow 10 (-d.exponent).toNat)

end Decimal

end IssueMarkdown
