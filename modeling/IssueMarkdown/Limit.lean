import IssueMarkdown.Decimal

/-! # Length limits

A rendered description may be cut after a number of characters. Anything that is no
number of at least one character sets no limit.
-/

namespace IssueMarkdown

inductive Limit where
  | unlimited
  | atMost (chars : Nat) (pos : 0 < chars) (fits : chars < UInt64.size)
  deriving DecidableEq

namespace Limit

/-- What is written in place of the characters cut off. -/
def ellipsis : Text := "...".toList

/-- Zero sets no limit, and counts beyond a 64 bit word are the greatest one. -/
def ofNat (n : Nat) : Limit :=
  if h : 0 < n then
    atMost (min n (UInt64.size - 1)) (by simp only [UInt64.size]; omega)
      (by simp only [UInt64.size]; omega)
  else unlimited

/-- A trimmed decimal literal is rounded to binary64 and floored. -/
def parse (raw : Text) : Limit :=
  match Decimal.parse? (Text.trim raw) with
  | none => unlimited
  | some d => if d.negative then unlimited else (d.nearest?.map (ofNat ·.floor)).getD unlimited

def get? : Limit → Option Nat
  | unlimited => none
  | atMost n _ _ => some n

def display : Limit → Text
  | unlimited => "unlimited".toList
  | atMost n _ _ => Nat.toDigits 10 n

/-- The text, or its first characters and an ellipsis if it has more of them. It is cut at the
byte where the first character too many begins. -/
def cap : Limit → Text → Text
  | unlimited, t => t
  | atMost n _ _, t =>
    match (Text.charIndices 0 t)[n]? with
    | some (cut, _) => Text.takeBytes cut t ++ ellipsis
    | none => t

theorem ofNat_eq_atMost {n : Nat} (pos : 0 < n) (fits : n < UInt64.size) :
    ofNat n = atMost n pos fits := by
  simp only [ofNat, dif_pos pos, atMost.injEq]
  exact Nat.min_eq_left (Nat.le_pred_of_lt fits)

theorem get?_ofNat (n : Nat) :
    (ofNat n).get? = if n = 0 then none else some (min n (UInt64.size - 1)) := by
  unfold ofNat
  split
  · rw [if_neg (Nat.ne_of_gt ‹_›)]
    rfl
  · rw [if_pos (Nat.eq_zero_of_not_pos ‹_›)]
    rfl

theorem cap_of_length_le {l : Limit} {n : Nat} {t : Text} (hl : l.get? = some n)
    (h : t.length ≤ n) : l.cap t = t := by
  cases l with
  | unlimited => rfl
  | atMost m pos fits =>
    obtain rfl := Option.some.inj hl
    simp [cap, Text.getElem?_charIndices, List.getElem?_eq_none h]

theorem cap_of_lt_length {l : Limit} {n : Nat} {t : Text} (hl : l.get? = some n)
    (h : n < t.length) : l.cap t = t.take n ++ ellipsis := by
  cases l with
  | unlimited => simp [get?] at hl
  | atMost m pos fits =>
    obtain rfl := Option.some.inj hl
    have cut := Text.takeBytes_byteLength (t.take m) (t.drop m)
    rw [List.take_append_drop] at cut
    simp [cap, Text.getElem?_charIndices, List.getElem?_eq_getElem h, cut]

theorem length_cap_le {l : Limit} {n : Nat} (hl : l.get? = some n) (t : Text) :
    (l.cap t).length ≤ n + 3 := by
  rcases Nat.lt_or_ge n t.length with h | h
  · rw [cap_of_lt_length hl h, ellipsis, List.length_append, List.length_take]
    exact Nat.add_le_add_right (Nat.min_le_left _ _) 3
  · rw [cap_of_length_le hl h]
    exact Nat.le_add_right_of_le h

end Limit

end IssueMarkdown
