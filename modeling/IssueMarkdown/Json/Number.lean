import IssueMarkdown.Decimal.Shortest

/-! # Numbers in JSON

A number is kept as it is written until its value is asked for. Whole numbers of 64 bits are
exact; all others are binary64, computed from at most 64 bits of digits and one power of ten.
-/

namespace IssueMarkdown.Json

open Text

/-- A number as it is written: its digits, those after the point, and the power of ten. -/
structure Literal where
  negative : Bool
  whole : Text
  fraction : Option Text
  power : Option (Bool × Text)
  deriving DecidableEq, Repr

/-- The value of a number. -/
inductive Number where
  | int (n : Int)
  | float (negative : Bool) (magnitude : Binary64)
  deriving DecidableEq, Repr

namespace Literal

def minus : Text → Bool × Text
  | '-' :: t => (true, t)
  | t => (false, t)

/-- A nonempty run of digits and what follows it. -/
def digits? (t : Text) : Option (Text × Text) :=
  (run? Char.isDigit t).map fun r => (t.takeWhile Char.isDigit, r)

/-- Digits that begin with a zero only if they are a single one. -/
def whole? (t : Text) : Option (Text × Text) :=
  (digits? t).filter fun (ds, _) => ds == ['0'] || ds.head? != some '0'

def fraction? : Text → Option (Option Text × Text)
  | '.' :: t => (digits? t).map fun (ds, r) => (some ds, r)
  | t => some (none, t)

def power? : Text → Option (Option (Bool × Text) × Text)
  | [] => some (none, [])
  | c :: t =>
    if c == 'e' || c == 'E' then
      (digits? (Decimal.sign t).2).map fun (ds, r) => (some ((Decimal.sign t).1, ds), r)
    else some (none, c :: t)

/-- The number at the front of a text and what follows it. -/
def scan? (t : Text) : Option (Literal × Text) :=
  (whole? (minus t).2).bind fun (whole, r) => (fraction? r).bind fun (frac, r) =>
    (power? r).map fun (power, r) => (⟨(minus t).1, whole, frac, power⟩, r)

theorem length_minus_le (t : Text) : (minus t).2.length ≤ t.length := by
  unfold minus
  split <;> simp

theorem length_digits? {t ds r : Text} (h : digits? t = some (ds, r)) :
    r.length < t.length := by
  obtain ⟨s, hs, he⟩ := Option.map_eq_some_iff.mp h
  obtain ⟨-, rfl⟩ := Prod.mk.inj he
  exact length_run? hs

theorem length_whole? {t ds r : Text} (h : whole? t = some (ds, r)) :
    r.length < t.length :=
  length_digits? (Option.filter_eq_some_iff.mp h).1

theorem length_fraction?_le {t r : Text} {f : Option Text} (h : fraction? t = some (f, r)) :
    r.length ≤ t.length := by
  unfold fraction? at h
  split at h
  · obtain ⟨⟨ds, s⟩, hs, he⟩ := Option.map_eq_some_iff.mp h
    obtain ⟨-, rfl⟩ := Prod.mk.inj he
    have := length_digits? hs
    simp only [List.length_cons]
    omega
  · obtain ⟨-, rfl⟩ := Prod.mk.inj (Option.some.inj h)
    exact Nat.le_refl _

theorem length_sign_le (t : Text) : (Decimal.sign t).2.length ≤ t.length := by
  unfold Decimal.sign
  split <;> simp

theorem length_power?_le {t r : Text} {p : Option (Bool × Text)} (h : power? t = some (p, r)) :
    r.length ≤ t.length := by
  cases t with
  | nil => simp_all [power?]
  | cons c t =>
    simp only [power?] at h
    split at h
    · obtain ⟨⟨ds, s⟩, hs, he⟩ := Option.map_eq_some_iff.mp h
      obtain ⟨-, rfl⟩ := Prod.mk.inj he
      have h₁ := length_digits? hs
      have h₂ := length_sign_le t
      simp only [List.length_cons]
      omega
    · simp_all

theorem length_scan? {t r : Text} {l : Literal} (h : scan? t = some (l, r)) :
    r.length < t.length := by
  obtain ⟨⟨w, a⟩, ha, h⟩ := Option.bind_eq_some_iff.mp h
  obtain ⟨⟨f, b⟩, hb, h⟩ := Option.bind_eq_some_iff.mp h
  obtain ⟨⟨p, c⟩, hc, he⟩ := Option.map_eq_some_iff.mp h
  obtain ⟨-, rfl⟩ := Prod.mk.inj he
  have h₁ := length_minus_le t
  have h₂ := length_whole? ha
  have h₃ := length_fraction?_le hb
  have h₄ := length_power?_le hc
  omega

/-- Appends digits to a number while it fits 64 bits; gives the digits that did not fit. -/
def take64 (n : Nat) : Text → Nat × Text
  | [] => (n, [])
  | c :: t =>
    if 10 * n + digitValue c < UInt64.size then take64 (10 * n + digitValue c) t
    else (n, c :: t)

/-- A power of ten up to the three hundred and eighth, rounded. -/
def powerOfTen (n : Nat) : Binary64 := (Binary64.ofNat? (Nat.pow 10 n)).getD .zero

/-- Multiplies by a power of ten, rounding at each step; none if the result is too large. -/
def scale? (f : Binary64) (e : Int) : Option Binary64 :=
  if e.natAbs ≤ 308 then
    if 0 ≤ e then f.mul? (powerOfTen e.natAbs) else f.div? (powerOfTen e.natAbs)
  else if f.significand = 0 then some .zero
  else if 0 ≤ e then none
  else (f.div? (powerOfTen 308)).bind (scale? · (e + 308))
termination_by e.natAbs
decreasing_by omega

/-- The value of a number; none if it is too large. A whole number is exact if it fits, which a
negative zero does not. -/
def value? (l : Literal) : Option Number :=
  let (n, dropped) := take64 0 l.whole
  match l.fraction, l.power, dropped with
  | none, none, [] =>
    if !l.negative then some (.int n)
    else if 0 < n ∧ 2 * n ≤ UInt64.size then some (.int (-n))
    else (Binary64.ofNat? n).map (.float true)
  | frac, power, dropped =>
    let ds := frac.getD []
    let (m, rest) := take64 n ds
    let p : Int := match power with
      | none => 0
      | some (neg, ps) => if neg then -decimalValue ps else decimalValue ps
    let e : Int := dropped.length - (ds.length - rest.length) + p
    ((Binary64.ofNat? m).bind (scale? · e)).map (.float l.negative)

end Literal

namespace Number

def intText (n : Int) : Text :=
  match n with
  | .ofNat n => Nat.toDigits 10 n
  | .negSucc n => '-' :: Nat.toDigits 10 (n + 1)

/-- A whole number that always has a sign. -/
def signedText (n : Int) : Text := if 0 ≤ n then '+' :: intText n else intText n

/-- Digits `ds` times a power of ten: positional from five zeros after the point up to sixteen
digits before it, and always with a point or a signed power. -/
def layout (ds : Text) (k : Int) : Text :=
  let point : Int := ds.length + k
  if 0 ≤ k ∧ point ≤ 16 then ds ++ List.replicate k.toNat '0' ++ ['.', '0']
  else if 0 < point ∧ point ≤ 16 then ds.take point.toNat ++ '.' :: ds.drop point.toNat
  else if -5 < point ∧ point ≤ 0 then
    ['0', '.'] ++ List.replicate (-point).toNat '0' ++ ds
  else
    let mantissa := match ds with
      | d :: r@(_ :: _) => d :: '.' :: r
      | ds => ds
    mantissa ++ 'e' :: signedText (point - 1)

/-- A number as it is printed: the shortest decimal that reads back. -/
def text : Number → Text
  | .int n => intText n
  | .float neg b =>
    let s := if b.significand = 0 then ['0', '.', '0']
      else layout (Nat.toDigits 10 b.shortest.1) b.shortest.2
    if neg then '-' :: s else s

end Number

end IssueMarkdown.Json
