import IssueMarkdown.Decimal

/-! # The shortest decimal that reads back

Of all decimals that round to a number, those with the fewest digits, and of these the
nearest; a tie goes to the even one.
-/

namespace IssueMarkdown.Binary64

/-- Whether the decimal `c / d` rounds to a number whose interval is `lo / d` to `hi / d`;
the ends belong to the interval if `ends` holds. -/
def within (ends : Bool) (lo hi c : Nat) : Bool :=
  if ends then lo ≤ c && c ≤ hi else lo < c && c < hi

/-- Of the two neighbours of `v / d` among the integers, the nearest one that lies in the
interval. -/
def neighbour? (ends : Bool) (lo v hi d : Nat) : Option Nat :=
  let c := v / d
  let down := within ends lo hi (c * d)
  let up := within ends lo hi ((c + 1) * d)
  if down && up then some (roundDiv v d)
  else if down then some c
  else if up then some (c + 1)
  else none

/-- The decimal of a number other than zero, as digits and a power of ten. The powers are
tried downwards from one that is too large; seventeen digits always suffice. -/
def shortest (b : Binary64) : Nat × Int :=
  let ends := b.significand % 2 == 0
  let low := if b.significand = leastNormal ∧ b.exponent ≠ -1074 then 1 else 2
  let e := b.exponent - 2
  let num := 1 <<< e.toNat
  let den := 1 <<< (-e).toNat
  let top : Int := ((b.significand.log2 : Int) + 1 + b.exponent) * 30103 / 100000 + 1
  let tries := (List.range 20).findSome? fun (i : Nat) =>
    let k := top - i
    let up := Nat.pow 10 (-k).toNat
    let d := den * Nat.pow 10 k.toNat
    let m := 4 * b.significand
    (neighbour? ends ((m - low) * num * up) (m * num * up) ((m + 2) * num * up) d).map (·, k)
  tries.getD (0, 0)

end IssueMarkdown.Binary64
