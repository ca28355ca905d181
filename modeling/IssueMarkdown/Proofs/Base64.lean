import IssueMarkdown.Web.Base64
import Mathlib.Algebra.Group.Nat.Defs

/-! # Base64 is read back

Full groups of four letters stand for three bytes each, and a padded one for those it has room for.
Bytes that are written are read back, and every character that is written is a letter of the
alphabet or padding.
-/

namespace IssueMarkdown.Web.Base64

variable {bs : List UInt8} {c : Char} {n : ℕ}

/-! ## Reading -/

/-- The letters of the standard alphabet in the order of the numbers they stand for. -/
def alphabet : Text := "ABCDEFGHIJKLMNOPQRSTUVWXYZabcdefghijklmnopqrstuvwxyz0123456789+/".toList

/-- The number that letters write, six bits each. -/
def number? (t : Text) : Option ℕ :=
  t.foldlM (fun n c => (alphabet.idxOf? c).map (64 * n + ·)) 0

/-- The bytes of a text in full groups of four, of which only the last one may be padded. Bits that
the padding leaves over have to be zero. -/
def decode? : Text → Option (List UInt8)
  | [] => some []
  | p :: q :: r :: s :: t =>
    if s ≠ '=' then do
      let n ← number? [p, q, r, s]
      return UInt8.ofNat (n / 65536) :: UInt8.ofNat (n / 256) :: UInt8.ofNat n :: (← decode? t)
    else if t ≠ [] then none
    else if r ≠ '=' then do
      let n ← number? [p, q, r]
      if n % 4 = 0 then some [UInt8.ofNat (n / 1024), UInt8.ofNat (n / 4)] else none
    else do
      let n ← number? [p, q]
      if n % 16 = 0 then some [UInt8.ofNat (n / 16)] else none
  | _ => none

theorem idxOf?_letter (h : n < 64) : alphabet.idxOf? (letter n) = some n := by
  have all : ∀ n < 64, alphabet.idxOf? (letter n) = some n := by decide +kernel
  exact all n h

theorem letter_ne_padding (h : n < 64) : letter n ≠ '=' := by
  decide +revert

theorem number?_map_letter (ns : List ℕ) (h : ∀ n ∈ ns, n < 64) :
    number? (ns.map letter) = some (ns.foldl (fun n d => 64 * n + d) 0) := by
  unfold number?
  generalize 0 = start
  induction ns generalizing start with
  | nil => rfl
  | cons d ns ih =>
    obtain ⟨hd, hns⟩ := List.forall_mem_cons.mp h
    rw [List.map_cons, List.foldlM_cons, idxOf?_letter hd]
    exact ih hns _

/-- The first letters of a group stand for the first bits of its number. -/
theorem number?_take_group (h : n < 2 ^ 24) (k : ℕ) :
    number? ((group n).take k) = some (n / 64 ^ (4 - k)) := by
  have letters : group n = [n / 262144, n / 4096 % 64, n / 64 % 64, n % 64].map letter := rfl
  have small : ∀ d ∈ [n / 262144, n / 4096 % 64, n / 64 % 64, n % 64], d < 64 := by
    simp only [List.forall_mem_cons]
    exact ⟨by omega, by omega, by omega, by omega, nofun⟩
  rw [letters, ← List.map_take, number?_map_letter _ fun d hd => small d (List.mem_of_mem_take hd)]
  refine congrArg some ?_
  rcases k with _ | _ | _ | _ | k
  · exact (Nat.div_eq_of_lt h).symm
  all_goals
    simp only [List.take_succ_cons, List.take_zero, List.take_nil, List.foldl_cons, List.foldl_nil]
  · omega
  · omega
  · omega
  · rw [Nat.sub_eq_zero_of_le (by omega)]
    omega

/-- The bits of two bytes, when they are written and when they are read. -/
theorem bits_of_pair {x y : ℕ} (hy : y < 256) :
    (x * 65536 + y * 256) / 64 = x * 1024 + y * 4 ∧ (x * 1024 + y * 4) / 1024 = x ∧
      (x * 1024 + y * 4) / 4 = x * 256 + y :=
  ⟨by omega, by omega, by omega⟩

/-- Reading undoes writing, group by group. -/
theorem decode?_encode (bs : List UInt8) : decode? (encode bs) = some bs := by
  fun_induction encode bs with
  | case1 => rfl
  | case2 a =>
    have ha := a.toNat_lt
    have bits : a.toNat * 65536 / 4096 = a.toNat * 16 := by omega
    have hn : number? [letter _, letter _] = some (a.toNat * 65536 / 4096) :=
      number?_take_group (by omega) 2
    show decode? [letter _, letter _, '=', '='] = _
    rw [decode?, if_neg (by simp), if_neg (by simp), if_neg (by simp), hn, bits]
    simp
  | case3 a b =>
    have ha := a.toNat_lt
    have hb := b.toNat_lt
    obtain ⟨bits, first, second⟩ := bits_of_pair (x := a.toNat) hb
    have hn : number? [letter _, letter _, letter _] =
        some ((a.toNat * 65536 + b.toNat * 256) / 64) := number?_take_group (by omega) 3
    show decode? [letter _, letter _, letter _, '='] = _
    rw [decode?, if_neg (by simp), if_neg (by simp), if_pos (letter_ne_padding (by omega)), hn,
      bits]
    simp [first, second]
    omega
  | case4 a b c bs ih =>
    have ha := a.toNat_lt
    have hb := b.toNat_lt
    have hc := c.toNat_lt
    have hn : number? [letter _, letter _, letter _, letter _] = some (_ / 1) :=
      number?_take_group (n := a.toNat * 65536 + b.toNat * 256 + c.toNat) (by omega) 4
    rw [Nat.div_one] at hn
    have first : (a.toNat * 65536 + b.toNat * 256 + c.toNat) / 65536 = a.toNat := by omega
    have second : (a.toNat * 65536 + b.toNat * 256 + c.toNat) / 256 = a.toNat * 256 + b.toNat := by
      omega
    show decode? (letter _ :: letter _ :: letter _ :: letter _ :: encode bs) = _
    rw [decode?, if_pos (letter_ne_padding (by omega)), hn, ih]
    simp [first, second]

/-! ## Characters -/

theorem mem_group (hn : n < 2 ^ 24) (hc : c ∈ group n) : ∃ d < 64, c = letter d := by
  simp only [group, List.mem_cons, List.not_mem_nil, or_false] at hc
  rcases hc with rfl | rfl | rfl | rfl
  all_goals exact ⟨_, by omega, rfl⟩

theorem mem_encode (hc : c ∈ encode bs) : (∃ d < 64, c = letter d) ∨ c = '=' := by
  fun_induction encode bs with
  | case1 => simp at hc
  | case2 a =>
    have ha := a.toNat_lt
    rcases List.mem_append.mp hc with hc | hc
    · exact .inl (mem_group (by omega) (List.mem_of_mem_take hc))
    · exact .inr (by simpa using hc)
  | case3 a b =>
    have ha := a.toNat_lt
    have hb := b.toNat_lt
    rcases List.mem_append.mp hc with hc | hc
    · exact .inl (mem_group (by omega) (List.mem_of_mem_take hc))
    · exact .inr (by simpa using hc)
  | case4 a b c bs ih =>
    have ha := a.toNat_lt
    have hb := b.toNat_lt
    have hc' := c.toNat_lt
    rcases List.mem_append.mp hc with hc | hc
    · exact .inl (mem_group (by omega) hc)
    · exact ih hc

end IssueMarkdown.Web.Base64
