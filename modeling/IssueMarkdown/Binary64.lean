/-! # Nonnegative binary64 numbers

A number `significand · 2 ^ exponent` with a significand of at most 53 bits. Exact quotients
are rounded to the nearest such number, a tie to the even significand.
-/

namespace IssueMarkdown

structure Binary64 where
  significand : Nat
  exponent : Int
  deriving DecidableEq, Repr

namespace Binary64

/-- The least significand of 53 bits. -/
def leastNormal : Nat := 1 <<< 52

def zero : Binary64 := ⟨0, -1074⟩

/-- The numbers of the format: normal ones have 53 bits, smaller ones the least exponent. -/
def Canonical (b : Binary64) : Prop :=
  b.significand < 2 * leastNormal ∧ -1074 ≤ b.exponent ∧ b.exponent ≤ 971 ∧
    (leastNormal ≤ b.significand ∨ b.exponent = -1074)

instance (b : Binary64) : Decidable b.Canonical := by unfold Canonical; infer_instance

/-- The value is the quotient of these two. -/
def numerator (b : Binary64) : Nat := b.significand <<< b.exponent.toNat

def denominator (b : Binary64) : Nat := 1 <<< (-b.exponent).toNat

def floor (b : Binary64) : Nat := b.numerator / b.denominator

/-- `n / d` to the nearest integer, a tie to the even one. -/
def roundDiv (n d : Nat) : Nat :=
  if d < 2 * (n % d) ∨ (2 * (n % d) = d ∧ n / d % 2 = 1) then n / d + 1 else n / d

/-- The greatest `l` with `2 ^ l ≤ n / d`. -/
def log2Div (n d : Nat) : Int :=
  let l : Int := n.log2 - d.log2
  if d <<< l.toNat ≤ n <<< (-l).toNat then l else l - 1

/-- The number nearest to `n / d`; none if it is beyond the greatest one. -/
def nearest? (n d : Nat) : Option Binary64 :=
  if n = 0 then some zero
  else
    let e := max (-1074) (log2Div n d - 52)
    let m := roundDiv (n <<< (-e).toNat) (d <<< e.toNat)
    let b : Binary64 := if m = 2 * leastNormal then ⟨leastNormal, e + 1⟩ else ⟨m, e⟩
    if 971 < b.exponent then none else some b

def ofNat? (n : Nat) : Option Binary64 := nearest? n 1

def mul? (a b : Binary64) : Option Binary64 :=
  nearest? (a.numerator * b.numerator) (a.denominator * b.denominator)

/-- The quotient by a number other than zero. -/
def div? (a b : Binary64) : Option Binary64 :=
  nearest? (a.numerator * b.denominator) (a.denominator * b.numerator)

/-- A rounded quotient is off by at most one half. -/
theorem roundDiv_within {n d : Nat} (hd : 0 < d) :
    2 * n ≤ (2 * roundDiv n d + 1) * d ∧ 2 * roundDiv n d * d ≤ 2 * n + d := by
  have hn := Nat.div_add_mod n d
  have hm := Nat.mod_lt n hd
  have he : ∀ x : Nat, (2 * x + 1) * d = 2 * (d * x) + d ∧ 2 * x * d = 2 * (d * x) := by
    intro x
    constructor
    · rw [Nat.add_mul, Nat.one_mul, Nat.mul_comm d x, Nat.mul_assoc]
    · rw [Nat.mul_assoc, Nat.mul_comm x d]
  unfold roundDiv
  split
  · rw [(he _).1, (he _).2, Nat.mul_add]
    omega
  · rw [(he _).1, (he _).2]
    omega

end Binary64

end IssueMarkdown
