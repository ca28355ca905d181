import IssueMarkdown.Binary64
import Mathlib.Algebra.Order.Field.Power
import Mathlib.Algebra.Order.Floor.Semifield
import Mathlib.Data.Rat.Floor
import Mathlib.Tactic.FieldSimp
import Mathlib.Tactic.Linarith
import Mathlib.Tactic.Positivity
import Mathlib.Tactic.Ring

/-! # Rounding to binary64

A rational number is rounded to the nearest number of the format, and of two that are equally
near to the one with an even significand. The quotient of two whole numbers is computed in units
of the last place of its result, where the numbers of the format are whole or out of reach.
-/

namespace IssueMarkdown.Binary64

/-- The rational number that this stands for. -/
def value (b : Binary64) : ℚ := b.significand * 2 ^ b.exponent

/-- The finite numbers of the format, with either sign. -/
def IsDouble (x : ℚ) : Prop := ∃ b : Binary64, b.Canonical ∧ |x| = b.value

/-- The last bit of the significand is zero. -/
def IsEven (x : ℚ) : Prop := ∃ b : Binary64, b.Canonical ∧ Even b.significand ∧ |x| = b.value

/-- Half a unit of the last place beyond the greatest number: from here on there is no nearest
one, and rounding gives infinity. -/
def overflow : ℚ := (2 ^ 53 - 1 / 2) * 2 ^ (971 : ℤ)

/-- `q` rounds to the finite number `r`: the nearest one, and on a tie the even one. -/
structure RoundsTo (q r : ℚ) : Prop where
  inRange : |q| < overflow
  isDouble : IsDouble r
  nearest : ∀ x, IsDouble x → |q - r| ≤ |q - x|
  even : ∀ x, IsDouble x → x ≠ r → |q - x| = |q - r| → IsEven r

variable {b : Binary64} {n d m : ℕ} {e e' : ℤ} {q r x y u : ℚ}

/-! ## Powers -/

theorem zpow_eq_div_toNat (a : ℚ) (e : ℤ) : a ^ e = a ^ e.toNat / a ^ (-e).toNat := by
  obtain ⟨k, rfl | rfl⟩ := e.eq_nat_or_neg
  · simp
  · simp

theorem zpow_eq_mul_of_le (h : e ≤ e') : (2 : ℚ) ^ e' = (2 ^ (e' - e).toNat : ℕ) * 2 ^ e := by
  have he : e' = (e' - e).toNat + e := by omega
  conv_lhs => rw [he, zpow_add₀ two_ne_zero, zpow_natCast]
  push_cast
  rfl

theorem two_pow_mul_zpow (k : ℕ) (e : ℤ) : (2 : ℚ) ^ k * 2 ^ e = 2 ^ (k + e) := by
  rw [zpow_add₀ two_ne_zero, zpow_natCast]

theorem zpow_two_le (h : e ≤ e') : (2 : ℚ) ^ e ≤ 2 ^ e' := zpow_le_zpow_right₀ one_le_two h

theorem zpow_two_pos (e : ℤ) : (0 : ℚ) < 2 ^ e := zpow_pos two_pos e

/-! ## Values -/

theorem leastNormal_eq : leastNormal = 2 ^ 52 := rfl

theorem value_nonneg (b : Binary64) : 0 ≤ b.value :=
  mul_nonneg (Nat.cast_nonneg _) (zpow_two_pos _).le

theorem value_eq_div (b : Binary64) : b.value = b.numerator / b.denominator := by
  rw [value, zpow_eq_div_toNat, numerator, denominator, Nat.shiftLeft_eq,
    Nat.shiftLeft_eq, Nat.one_mul]
  push_cast
  ring

theorem floor_eq (b : Binary64) : b.floor = ⌊b.value⌋₊ := by
  rw [value_eq_div, Nat.floor_div_eq_div, floor]

theorem canonical_zero : zero.Canonical := by decide

theorem isDouble_value (h : b.Canonical) : IsDouble b.value := ⟨b, h, abs_of_nonneg b.value_nonneg⟩

/-! ## Whole numbers -/

/-- The nearest whole number, on a tie the even one. -/
structure NearestWhole (y : ℚ) (m : ℕ) : Prop where
  within : |y - m| ≤ 1 / 2
  even : |y - m| = 1 / 2 → Even m

theorem roundDiv_even (hd : 0 < d)
    (h : 2 * n = (2 * roundDiv n d + 1) * d ∨ 2 * n + d = 2 * roundDiv n d * d) :
    Even (roundDiv n d) := by
  have hn := Nat.div_add_mod n d
  have hm := Nat.mod_lt n hd
  have expand : ∀ k : ℕ, (2 * k + 1) * d = 2 * (d * k) + d ∧ 2 * k * d = 2 * (d * k) := fun k =>
    ⟨by ring, by ring⟩
  rw [Nat.even_iff]
  unfold roundDiv at h ⊢
  split_ifs at h ⊢ with hc
  · rw [(expand _).1, (expand _).2, Nat.mul_add] at h
    omega
  · rw [(expand _).1, (expand _).2] at h
    omega

theorem nearestWhole_roundDiv (hd : 0 < d) : NearestWhole (n / d) (roundDiv n d) := by
  obtain ⟨hle, hge⟩ := roundDiv_within (n := n) hd
  have hq : (0 : ℚ) < d := Nat.cast_pos.mpr hd
  have hle' : 2 * (n : ℚ) ≤ (2 * roundDiv n d + 1) * d := by exact_mod_cast hle
  have hge' : 2 * (roundDiv n d : ℚ) * d ≤ 2 * n + d := by exact_mod_cast hge
  have hn : (n : ℚ) / d * d = n := div_mul_cancel₀ _ hq.ne'
  constructor
  · rw [abs_le]
    constructor <;> nlinarith
  · intro h
    apply roundDiv_even hd
    rcases eq_or_eq_neg_of_abs_eq h with h | h
    · left
      have : 2 * (n : ℚ) = (2 * roundDiv n d + 1) * d := by
        rw [← hn, eq_add_of_sub_eq h]
        ring
      exact_mod_cast this
    · right
      have : 2 * (n : ℚ) + d = 2 * roundDiv n d * d := by
        rw [← hn, eq_add_of_sub_eq h]
        ring
      exact_mod_cast this

theorem one_le_abs_add_abs {k : ℤ} (hk : k ≠ m) (y : ℚ) : 1 ≤ |y - m| + |y - k| := by
  have apart : 1 ≤ |(k : ℚ) - m| := by exact_mod_cast Int.one_le_abs (sub_ne_zero.mpr hk)
  calc (1 : ℚ) ≤ |(k : ℚ) - m| := apart
    _ ≤ |k - y| + |y - m| := abs_sub_le ..
    _ = |y - m| + |y - k| := by rw [abs_sub_comm, add_comm]

theorem NearestWhole.le (h : NearestWhole y m) (k : ℤ) : |y - m| ≤ |y - k| := by
  by_cases hk : k = m
  · rw [hk, Int.cast_natCast]
  · linarith [h.within, one_le_abs_add_abs hk y]

theorem NearestWhole.even_of_tie (h : NearestWhole y m) {k : ℤ} (hk : k ≠ m)
    (he : |y - k| = |y - m|) : Even m :=
  h.even (by linarith [h.within, one_le_abs_add_abs hk y])

/-! ## The unit of the last place -/

theorem shiftLeft_le_iff (hd : 0 < d) :
    d <<< e.toNat ≤ n <<< (-e).toNat ↔ (2 : ℚ) ^ e ≤ n / d := by
  rw [zpow_eq_div_toNat, div_le_div_iff₀ (by positivity) (by exact_mod_cast hd),
    Nat.shiftLeft_eq, Nat.shiftLeft_eq, mul_comm ((2 : ℚ) ^ _)]
  exact_mod_cast Iff.rfl

theorem zpow_log2_le (hn : 0 < n) : (2 : ℚ) ^ (n.log2 : ℤ) ≤ n := by
  rw [zpow_natCast]
  exact_mod_cast Nat.log2_self_le hn.ne'

theorem lt_zpow_log2 (n : ℕ) : (n : ℚ) < 2 ^ (n.log2 + 1 : ℤ) := by
  have h : n < 2 ^ (n.log2 + 1) := Nat.lt_log2_self
  exact_mod_cast h

theorem log2Div_spec (hn : 0 < n) (hd : 0 < d) :
    (2 : ℚ) ^ log2Div n d ≤ n / d ∧ (n : ℚ) / d < 2 ^ (log2Div n d + 1) := by
  have hq : (0 : ℚ) < d := Nat.cast_pos.mpr hd
  unfold log2Div
  dsimp only
  split_ifs with h <;> rw [shiftLeft_le_iff hd] at h
  · refine ⟨h, (div_lt_iff₀ hq).mpr ?_⟩
    calc (n : ℚ) < 2 ^ (n.log2 + 1 : ℤ) := lt_zpow_log2 n
      _ = 2 ^ (n.log2 - d.log2 + 1 : ℤ) * 2 ^ (d.log2 : ℤ) := by
        rw [← zpow_add₀ two_ne_zero]
        congr 1
        omega
      _ ≤ 2 ^ (n.log2 - d.log2 + 1 : ℤ) * d :=
        mul_le_mul_of_nonneg_left (zpow_log2_le hd) (zpow_two_pos _).le
  · refine ⟨(le_div_iff₀ hq).mpr ?_, by simpa using h⟩
    calc (2 : ℚ) ^ (n.log2 - d.log2 - 1 : ℤ) * d
        ≤ 2 ^ (n.log2 - d.log2 - 1 : ℤ) * 2 ^ (d.log2 + 1 : ℤ) :=
          mul_le_mul_of_nonneg_left (lt_zpow_log2 d).le (zpow_two_pos _).le
      _ = 2 ^ (n.log2 : ℤ) := by
        rw [← zpow_add₀ two_ne_zero]
        congr 1
        omega
      _ ≤ n := zpow_log2_le hn

/-- `2 ^ e` is the unit of the last place for `q`, and `m` the nearest number of these units. -/
structure InUnits (q : ℚ) (e : ℤ) (m : ℕ) : Prop where
  least : -1074 ≤ e
  normal : 2 ^ 52 * 2 ^ e ≤ q ∨ e = -1074
  lt : q < 2 ^ 53 * 2 ^ e
  rounded : NearestWhole (q / 2 ^ e) m

/-- A number of a lesser exponent is below all of 53 bits. -/
theorem Canonical.value_lt (h : b.Canonical) (he : b.exponent < e) :
    b.value < 2 ^ 52 * 2 ^ e := by
  have hs : (b.significand : ℚ) < 2 ^ 53 := by
    exact_mod_cast (leastNormal_eq ▸ h.1 : b.significand < 2 * 2 ^ 52)
  calc b.value < 2 ^ 53 * 2 ^ b.exponent := mul_lt_mul_of_pos_right hs (zpow_two_pos _)
    _ = 2 ^ 52 * 2 ^ (b.exponent + 1) := by rw [zpow_add_one₀ two_ne_zero]; ring
    _ ≤ 2 ^ 52 * 2 ^ e := mul_le_mul_of_nonneg_left (zpow_two_le he) (by positivity)

theorem value_eq_of_le (h : e ≤ b.exponent) :
    b.value = (b.significand * 2 ^ (b.exponent - e).toNat : ℕ) * 2 ^ e := by
  rw [value, zpow_eq_mul_of_le h, ← mul_assoc]
  push_cast
  rfl

/-- In its units, a number of the format is whole or below all of 53 bits. -/
theorem IsDouble.cases (hx : IsDouble x) (e : ℤ) :
    (∃ k : ℤ, x = k * 2 ^ e) ∨ -1074 < e ∧ |x| < 2 ^ 52 * 2 ^ e := by
  obtain ⟨b, hb, hv⟩ := hx
  rcases le_or_gt e b.exponent with h | h
  · left
    rw [value_eq_of_le h] at hv
    rcases eq_or_eq_neg_of_abs_eq hv with rfl | rfl
    · exact ⟨(_ : ℕ), by rw [Int.cast_natCast]⟩
    · exact ⟨-(_ : ℕ), by rw [Int.cast_neg, Int.cast_natCast, neg_mul]⟩
  · exact .inr ⟨lt_of_le_of_lt hb.2.1 h, hv ▸ hb.value_lt h⟩

theorem abs_sub_mul_zpow (q x : ℚ) (e : ℤ) : |q - x * 2 ^ e| = |q / 2 ^ e - x| * 2 ^ e := by
  have hu := zpow_two_pos e
  rw [← abs_of_pos hu, ← abs_mul, sub_mul, abs_of_pos hu, div_mul_cancel₀ _ hu.ne']

/-- The nearest number of units is the nearest number of the format. -/
theorem InUnits.nearest (h : InUnits q e m) (hx : IsDouble x) : |q - m * 2 ^ e| ≤ |q - x| ∧
    (x ≠ m * 2 ^ e → |q - x| = |q - m * 2 ^ e| → Even m) := by
  have hu := zpow_two_pos e
  have whole : ∀ k : ℤ, |q - m * 2 ^ e| ≤ |q - k * 2 ^ e| := by
    intro k
    rw [abs_sub_mul_zpow, abs_sub_mul_zpow]
    exact mul_le_mul_of_nonneg_right (h.rounded.le k) hu.le
  rcases hx.cases e with ⟨k, rfl⟩ | ⟨hlt, hx⟩
  · refine ⟨whole k, fun hne he => ?_⟩
    rw [abs_sub_mul_zpow, abs_sub_mul_zpow] at he
    refine h.rounded.even_of_tie (fun hk => hne ?_) (mul_right_cancel₀ hu.ne' he)
    rw [hk, Int.cast_natCast]
  · -- a number below those with 53 bits is farther off than the least of these
    have hq := h.normal.resolve_right hlt.ne'
    have far : |q - m * 2 ^ e| < |q - x| := by
      calc |q - m * 2 ^ e| ≤ |q - (2 ^ 52 : ℤ) * 2 ^ e| := whole _
        _ = q - 2 ^ 52 * 2 ^ e := by
          push_cast
          exact abs_of_nonneg (sub_nonneg.mpr hq)
        _ < q - |x| := sub_lt_sub_left hx q
        _ ≤ |q - x| := by linarith [le_abs_self (q - x), le_abs_self x]
    exact ⟨far.le, fun _ he => absurd he far.ne'⟩

theorem InUnits.le (h : InUnits q e m) : m ≤ 2 ^ 53 := by
  have hy : q / 2 ^ e < 2 ^ 53 := (div_lt_iff₀ (zpow_two_pos e)).mpr h.lt
  have hm : (m : ℚ) < 2 ^ 53 + 1 := by linarith [neg_le_of_abs_le h.rounded.within]
  exact Nat.lt_succ_iff.mp (by exact_mod_cast hm)

theorem InUnits.le_of_normal (h : InUnits q e m) (hq : 2 ^ 52 * 2 ^ e ≤ q) : 2 ^ 52 ≤ m := by
  have hy : 2 ^ 52 ≤ q / 2 ^ e := (le_div_iff₀ (zpow_two_pos e)).mpr hq
  have hm : (2 ^ 52 : ℚ) < m + 1 := by linarith [le_of_abs_le h.rounded.within]
  exact Nat.lt_succ_iff.mp (by exact_mod_cast hm)

theorem inUnits_of_pos (hn : 0 < n) (hd : 0 < d) :
    InUnits (n / d) (max (-1074) (log2Div n d - 52))
      (roundDiv (n <<< (-max (-1074) (log2Div n d - 52)).toNat)
        (d <<< (max (-1074) (log2Div n d - 52)).toNat)) := by
  obtain ⟨low, high⟩ := log2Div_spec hn hd
  generalize he : max (-1074) (log2Div n d - 52) = e
  refine ⟨by omega, ?_, ?_, ?_⟩
  · by_cases h : e = -1074
    · exact .inr h
    · left
      rw [two_pow_mul_zpow]
      exact le_trans (zpow_two_le (by push_cast; omega)) low
  · rw [two_pow_mul_zpow]
    exact lt_of_lt_of_le high (zpow_two_le (by push_cast; omega))
  · have hpos : 0 < d <<< e.toNat := by
      rw [Nat.shiftLeft_eq]
      exact Nat.mul_pos hd (Nat.two_pow_pos _)
    have hy : (n : ℚ) / d / 2 ^ e = (n <<< (-e).toNat : ℕ) / (d <<< e.toNat : ℕ) := by
      rw [zpow_eq_div_toNat, Nat.shiftLeft_eq, Nat.shiftLeft_eq]
      push_cast
      field_simp
    rw [hy]
    exact nearestWhole_roundDiv hpos

/-- A count of units as a number of the format, its exponent not yet bounded above. -/
def ofUnits (m : ℕ) (e : ℤ) : Binary64 :=
  if m = 2 * leastNormal then ⟨leastNormal, e + 1⟩ else ⟨m, e⟩

theorem value_ofUnits (m : ℕ) (e : ℤ) : (ofUnits m e).value = m * 2 ^ e := by
  unfold ofUnits
  split_ifs with h
  · rw [h, value, zpow_add_one₀ two_ne_zero]
    push_cast
    ring
  · rfl

theorem InUnits.canonical_ofUnits (h : InUnits q e m) (he : (ofUnits m e).exponent ≤ 971) :
    (ofUnits m e).Canonical := by
  have hm := h.le
  have hl := h.least
  unfold ofUnits at he ⊢
  split_ifs at he ⊢ with hc
  · exact ⟨(by decide : leastNormal < 2 * leastNormal), by dsimp only at *; omega, he, .inl le_rfl⟩
  · refine ⟨by dsimp only; rw [leastNormal_eq] at *; omega, hl, he, ?_⟩
    rcases h.normal with hn | hn
    · exact .inl (h.le_of_normal hn)
    · exact .inr hn

theorem even_ofUnits (h : Even m) : Even (ofUnits m e).significand := by
  unfold ofUnits
  split_ifs
  · exact (by decide : Even leastNormal)
  · exact h

theorem overflow_eq : overflow = (2 ^ 54 - 1) * 2 ^ (970 : ℤ) := by
  rw [overflow, show (971 : ℤ) = 970 + 1 from rfl, zpow_add_one₀ two_ne_zero]
  ring

theorem InUnits.lt_overflow (h : InUnits q e m) (he : e ≤ 970) : q < overflow := by
  calc q < 2 ^ 53 * 2 ^ e := h.lt
    _ ≤ 2 ^ 53 * 2 ^ (970 : ℤ) := mul_le_mul_of_nonneg_left (zpow_two_le he) (by positivity)
    _ ≤ overflow := by
      rw [overflow_eq]
      exact mul_le_mul_of_nonneg_right (by norm_num) (zpow_two_pos _).le

theorem InUnits.overflow_le (h : InUnits q e m) (he : 972 ≤ e) : overflow ≤ q := by
  calc overflow ≤ 2 ^ 53 * 2 ^ (971 : ℤ) :=
        mul_le_mul_of_nonneg_right (by norm_num) (zpow_two_pos _).le
    _ = 2 ^ 52 * 2 ^ (972 : ℤ) := by
        rw [show (972 : ℤ) = 971 + 1 from rfl, zpow_add_one₀ two_ne_zero]
        ring
    _ ≤ 2 ^ 52 * 2 ^ e := mul_le_mul_of_nonneg_left (zpow_two_le he) (by positivity)
    _ ≤ q := h.normal.resolve_right (by omega)

/-- In the units of the greatest numbers, a tie with the next power of two goes up to it. -/
theorem InUnits.eq_iff_overflow_le (h : InUnits q 971 m) : m = 2 ^ 53 ↔ overflow ≤ q := by
  have hle := h.le
  have hr := h.rounded
  rw [overflow, ← le_div_iff₀ (zpow_two_pos 971)]
  generalize q / (2 : ℚ) ^ (971 : ℤ) = y at hr
  obtain ⟨low, high⟩ := abs_le.mp hr.within
  constructor
  · rintro rfl
    push_cast at low
    linarith
  · intro hy
    by_contra hne
    have hm : (m : ℚ) + 1 ≤ 2 ^ 53 := by exact_mod_cast Nat.lt_of_le_of_ne hle hne
    have tie : |y - m| = 1 / 2 := by
      rw [abs_of_nonneg (by linarith)]
      linarith
    have last : (m : ℚ) = (2 ^ 53 - 1 : ℕ) := by
      push_cast
      linarith
    have even := hr.even tie
    rw [Nat.cast_injective last] at even
    exact absurd even (by decide)

/-- Rounding overflows exactly where the exponent does. -/
theorem InUnits.exponent_le_iff (h : InUnits q e m) :
    (ofUnits m e).exponent ≤ 971 ↔ q < overflow := by
  have hc : 2 * leastNormal = 2 ^ 53 := by decide
  unfold ofUnits
  rw [hc]
  rcases lt_trichotomy e 971 with he | rfl | he
  · have := h.lt_overflow (Int.le_of_lt_add_one he)
    split_ifs <;> dsimp only <;> simp only [this, iff_true] <;> omega
  · rw [← not_le, ← h.eq_iff_overflow_le]
    split_ifs with hm
    · exact iff_of_false (by decide) (not_not.mpr hm)
    · exact iff_of_true le_rfl hm
  · have := h.overflow_le he
    split_ifs <;> dsimp only <;> simp only [not_lt.mpr this, iff_false] <;> omega

/-! ## Rounding -/

theorem InUnits.roundsTo (h : InUnits q e m) (hq : 0 ≤ q) (he : (ofUnits m e).exponent ≤ 971) :
    RoundsTo q (ofUnits m e).value where
  inRange := by
    rw [abs_of_nonneg hq]
    exact h.exponent_le_iff.mp he
  isDouble := isDouble_value (h.canonical_ofUnits he)
  nearest x hx := by
    rw [value_ofUnits]
    exact (h.nearest hx).1
  even x hx hne ht := by
    rw [value_ofUnits] at hne ht
    exact ⟨_, h.canonical_ofUnits he, even_ofUnits ((h.nearest hx).2 hne ht),
      abs_of_nonneg (value_nonneg _)⟩

theorem le_abs_of_isDouble (hx : IsDouble x) (hne : x ≠ 0) : 2 ^ (-1074 : ℤ) ≤ |x| := by
  obtain ⟨b, ⟨-, he, -, -⟩, hv⟩ := hx
  have hs : 1 ≤ b.significand := by
    rw [Nat.one_le_iff_ne_zero]
    intro hs
    rw [value, hs, Nat.cast_zero, zero_mul] at hv
    exact hne (abs_eq_zero.mp hv)
  calc (2 : ℚ) ^ (-1074 : ℤ) ≤ 2 ^ b.exponent := zpow_two_le he
    _ ≤ b.significand * 2 ^ b.exponent :=
      le_mul_of_one_le_left (zpow_two_pos _).le (by exact_mod_cast hs)
    _ = |x| := hv.symm

/-- Whatever is nearer to zero than to the least number rounds to zero. -/
theorem roundsTo_zero (hq : 0 ≤ q) (h : 2 * q < 2 ^ (-1074 : ℤ)) : RoundsTo q zero.value := by
  have hz : zero.value = 0 := by simp [value, zero]
  have farther : ∀ x, IsDouble x → x ≠ 0 → q < |q - x| := by
    intro x hx hne
    have hle := le_abs_of_isDouble hx hne
    have := abs_sub_abs_le_abs_sub x q
    rw [abs_sub_comm, abs_of_nonneg hq] at this
    linarith
  refine ⟨?_, isDouble_value canonical_zero, ?_, ?_⟩
  · calc |q| = q := abs_of_nonneg hq
      _ < 2 ^ (-1074 : ℤ) := by linarith
      _ ≤ 2 ^ (970 : ℤ) := zpow_two_le (by decide)
      _ ≤ overflow := by
        rw [overflow_eq]
        exact le_mul_of_one_le_left (zpow_two_pos _).le (by norm_num)
  · intro x hx
    rw [hz, sub_zero, abs_of_nonneg hq]
    by_cases hne : x = 0
    · rw [hne, sub_zero, abs_of_nonneg hq]
    · exact (farther x hx hne).le
  · intro x hx hne ht
    rw [hz] at hne
    rw [hz, sub_zero, abs_of_nonneg hq] at ht
    exact absurd ht (farther x hx hne).ne'

theorem nearest?_eq (hn : 0 < n) (hd : 0 < d) : ∃ e m, InUnits (n / d) e m ∧
    nearest? n d = if 971 < (ofUnits m e).exponent then none else some (ofUnits m e) :=
  ⟨_, _, inUnits_of_pos hn hd, if_neg hn.ne'⟩

/-- The quotient is rounded, or is beyond the greatest number. -/
theorem nearest?_cases (n : ℕ) (hd : 0 < d) :
    (∃ b, nearest? n d = some b ∧ RoundsTo (n / d) b.value) ∨
      nearest? n d = none ∧ overflow ≤ (n : ℚ) / d := by
  rcases Nat.eq_zero_or_pos n with rfl | hn
  · refine .inl ⟨zero, rfl, ?_⟩
    rw [Nat.cast_zero, zero_div]
    exact roundsTo_zero le_rfl (by rw [mul_zero]; exact zpow_two_pos _)
  · obtain ⟨e, m, units, rounded⟩ := nearest?_eq hn hd
    by_cases he : (ofUnits m e).exponent ≤ 971
    · exact .inl ⟨_, rounded.trans (if_neg (not_lt.mpr he)), units.roundsTo (by positivity) he⟩
    · refine .inr ⟨rounded.trans (if_pos (not_le.mp he)), ?_⟩
      exact not_lt.mp fun hlt => he (units.exponent_le_iff.mpr hlt)

/-- Every number below half a unit beyond the greatest one can be rounded. -/
theorem exists_roundsTo (h0 : 0 ≤ q) (h : q < overflow) : ∃ r, RoundsTo q r := by
  have quotient : (q.num.toNat : ℚ) / q.den = q := by
    have hn : (q.num.toNat : ℤ) = q.num := Int.toNat_of_nonneg (Rat.num_nonneg.mpr h0)
    rw [← Int.cast_natCast, hn, Rat.num_div_den]
  have cases := nearest?_cases q.num.toNat q.den_pos
  rw [quotient] at cases
  rcases cases with ⟨b, -, rounded⟩ | ⟨-, beyond⟩
  · exact ⟨b.value, rounded⟩
  · exact absurd h beyond.not_gt

/-- Between two even numbers of the format there is another one. -/
theorem exists_between_of_isEven (hx : IsEven x) (hy : IsEven y) (h0 : 0 ≤ x) (hxy : x < y) :
    ∃ z, IsDouble z ∧ x < z ∧ z < y := by
  obtain ⟨b, ⟨hs, he, hle, hn⟩, heven, hv⟩ := hx
  obtain ⟨c, hc, ceven, cv⟩ := hy
  rw [abs_of_nonneg h0] at hv
  rw [abs_of_pos (lt_of_le_of_lt h0 hxy)] at cv
  subst hv cv
  have hu := zpow_two_pos b.exponent
  have hs' : b.significand + 1 < 2 * leastNormal := by
    rw [leastNormal_eq] at *
    have := Nat.even_iff.mp heven
    omega
  have next : (⟨b.significand + 1, b.exponent⟩ : Binary64).Canonical :=
    ⟨hs', he, hle, hn.imp_left fun h => h.trans (Nat.le_succ _)⟩
  refine ⟨_, isDouble_value next, ?_, ?_⟩
  · exact mul_lt_mul_of_pos_right (by exact_mod_cast Nat.lt_succ_self _) hu
  · rcases le_or_gt b.exponent c.exponent with h | h
    · -- both are whole in the units of the lesser one, and even
      rw [value_eq_of_le h] at hxy ⊢
      have keven := Nat.even_iff.mp (ceven.mul_right (2 ^ (c.exponent - b.exponent).toNat))
      generalize c.significand * 2 ^ (c.exponent - b.exponent).toNat = k at *
      have hk : b.significand < k := by exact_mod_cast lt_of_mul_lt_mul_right hxy hu.le
      have := Nat.even_iff.mp heven
      exact mul_lt_mul_of_pos_right (by exact_mod_cast (by omega : b.significand + 1 < k)) hu
    · have hl : (2 ^ 52 : ℚ) ≤ b.significand := by
        exact_mod_cast hn.resolve_right (lt_of_le_of_lt hc.2.1 h).ne'
      have := hc.value_lt h
      exact absurd hxy (this.trans_le (mul_le_mul_of_nonneg_right hl hu.le)).not_gt

theorem RoundsTo.le (h : RoundsTo q x) (h' : RoundsTo q y) (hx : 0 ≤ x) : y ≤ x := by
  by_contra hle
  have hlt := not_le.mp hle
  have tie : |q - y| = |q - x| :=
    le_antisymm (h'.nearest x h.isDouble) (h.nearest y h'.isDouble)
  obtain ⟨z, hz, hxz, hzy⟩ := exists_between_of_isEven (h.even y h'.isDouble hlt.ne' tie)
    (h'.even x h.isDouble hlt.ne tie.symm) hx hlt
  have middle : q - y = -(q - x) := (abs_eq_abs.mp tie).resolve_left (by linarith)
  have nearer : |q - z| < |q - x| := by
    rw [abs_of_nonneg (by linarith : 0 ≤ q - x), abs_lt]
    constructor <;> linarith
  exact absurd (h.nearest z hz) nearer.not_ge

/-- A number rounds to one nonnegative number at most. -/
theorem RoundsTo.unique (h : RoundsTo q x) (h' : RoundsTo q y) (hx : 0 ≤ x) (hy : 0 ≤ y) :
    x = y :=
  le_antisymm (h'.le h hy) (h.le h' hx)

/-! ## Bounds -/

/-- Rounding steps over no number of the format. -/
theorem RoundsTo.le_of_isDouble (h : RoundsTo q r) (hx : IsDouble x) (hxq : x ≤ q) : x ≤ r := by
  by_contra hlt
  have hrx := not_le.mp hlt
  have nearest := h.nearest x hx
  rw [abs_of_nonneg (by linarith), abs_of_nonneg (by linarith)] at nearest
  linarith

theorem RoundsTo.ge_of_isDouble (h : RoundsTo q r) (hx : IsDouble x) (hxq : q ≤ x) : r ≤ x := by
  by_contra hlt
  have hrx := not_le.mp hlt
  have nearest := h.nearest x hx
  rw [abs_of_nonpos (by linarith), abs_of_nonpos (by linarith)] at nearest
  linarith

/-- A whole number of at most 53 bits is shifted until it has 53. -/
theorem isDouble_of_lt {k : ℕ} (hpos : 0 < k) (hk : k < 2 ^ 53) : IsDouble k := by
  have hl : k.log2 < 53 := (Nat.log2_lt hpos.ne').mpr hk
  have low : 2 ^ 52 ≤ k * 2 ^ (52 - k.log2) := by
    calc 2 ^ 52 = 2 ^ k.log2 * 2 ^ (52 - k.log2) := by
          rw [← Nat.pow_add]
          congr 1
          omega
      _ ≤ k * 2 ^ (52 - k.log2) := Nat.mul_le_mul_right _ (Nat.log2_self_le hpos.ne')
  have high : k * 2 ^ (52 - k.log2) < 2 * 2 ^ 52 := by
    calc k * 2 ^ (52 - k.log2) < 2 ^ (k.log2 + 1) * 2 ^ (52 - k.log2) :=
          Nat.mul_lt_mul_of_pos_right Nat.lt_log2_self (Nat.two_pow_pos _)
      _ = 2 * 2 ^ 52 := by
          rw [← Nat.pow_add, ← Nat.pow_succ']
          congr 1
          omega
  refine ⟨⟨k * 2 ^ (52 - k.log2), -(52 - k.log2 : ℕ)⟩, ⟨high, ?_, ?_, .inl low⟩, ?_⟩
  · dsimp only
    omega
  · dsimp only
    omega
  · rw [Nat.abs_cast, value, zpow_neg, zpow_natCast]
    push_cast
    rw [mul_assoc, mul_inv_cancel₀ (by positivity), mul_one]

theorem isDouble_zero : IsDouble 0 := ⟨zero, canonical_zero, by simp [value, zero]⟩

theorem isDouble_natCast {k : ℕ} (hk : k ≤ 2 ^ 53) : IsDouble k := by
  rcases Nat.eq_zero_or_pos k with rfl | hpos
  · exact Nat.cast_zero (R := ℚ) ▸ isDouble_zero
  · rcases Nat.lt_or_eq_of_le hk with hlt | rfl
    · exact isDouble_of_lt hpos hlt
    · exact ⟨⟨leastNormal, 1⟩, by decide, by norm_num [value, leastNormal_eq]⟩

theorem RoundsTo.pos (h : RoundsTo q r) (hr : 0 < r) : 0 < q := by
  by_contra hq
  exact absurd hr (h.ge_of_isDouble isDouble_zero (not_lt.mp hq)).not_gt

/-- A number of the format rounds to itself. -/
theorem RoundsTo.eq_of_isDouble (h : RoundsTo q r) (hq : IsDouble q) : r = q :=
  le_antisymm (h.ge_of_isDouble hq le_rfl) (h.le_of_isDouble hq le_rfl)

theorem RoundsTo.eq_natCast {k : ℕ} (h : RoundsTo k r) (hk : k ≤ 2 ^ 53) : r = k :=
  h.eq_of_isDouble (isDouble_natCast hk)

theorem lt_overflow_of_lt {k : ℕ} (hq : q < 2 ^ k) (hk : k ≤ 970) : q < overflow := by
  calc q < 2 ^ k := hq
    _ = 2 ^ (k : ℤ) := (zpow_natCast 2 k).symm
    _ ≤ 2 ^ (970 : ℤ) := zpow_two_le (by omega)
    _ ≤ overflow := by
      rw [overflow_eq]
      exact le_mul_of_one_le_left (zpow_two_pos _).le (by norm_num)

/-- Below 53 bits a number stays between the whole numbers next to it. -/
theorem RoundsTo.floor_within (h : RoundsTo q r) (h0 : 0 ≤ q) (hq : q < 2 ^ 53) :
    ⌊q⌋₊ ≤ ⌊r⌋₊ ∧ ⌊r⌋₊ ≤ ⌊q⌋₊ + 1 := by
  have hk : ⌊q⌋₊ < 2 ^ 53 := (Nat.floor_lt h0).mpr (by exact_mod_cast hq)
  constructor
  · exact Nat.le_floor (h.le_of_isDouble (isDouble_natCast hk.le) (Nat.floor_le h0))
  · refine Nat.floor_le_of_le (h.ge_of_isDouble (isDouble_natCast hk) ?_)
    exact_mod_cast (Nat.lt_floor_add_one q).le

/-- A number of the format with all of 53 bits is whole in their units. -/
theorem IsDouble.exists_mul_zpow (hx : IsDouble x) (h : 2 ^ 52 * 2 ^ e ≤ x) :
    ∃ k : ℤ, x = k * 2 ^ e :=
  (hx.cases e).resolve_right fun hlt => (lt_of_abs_lt hlt.2).not_ge h

/-- The whole part of a number of the format belongs to the format. -/
theorem IsDouble.floor (hx : IsDouble x) (h0 : 0 ≤ x) : IsDouble (⌊x⌋₊ : ℚ) := by
  rcases lt_or_ge x (2 ^ 52) with hlt | hge
  · have below : ⌊x⌋₊ < 2 ^ 52 := (Nat.floor_lt h0).mpr (by exact_mod_cast hlt)
    exact isDouble_natCast (by omega)
  · obtain ⟨k, rfl⟩ : ∃ k : ℤ, x = k := by
      simpa using hx.exists_mul_zpow (e := 0) (by simpa using hge)
    lift k to ℕ using by exact_mod_cast h0
    rwa [Int.cast_natCast, Nat.floor_natCast]

/-- The greatest whole number of 64 bits rounds up to the power of two above it. -/
theorem RoundsTo.two_pow_le (h : RoundsTo (2 ^ 64 - 1) r) : 2 ^ 64 ≤ r := by
  have power : IsDouble (2 ^ 64) :=
    ⟨⟨leastNormal, 12⟩, by decide, by norm_num [value, leastNormal_eq]⟩
  have near : |(2 ^ 64 - 1 : ℚ) - r| ≤ 1 := (h.nearest _ power).trans_eq (by norm_num)
  have high : 2 ^ 64 - 2 ≤ r := by linarith [(abs_le.mp near).2]
  -- in this range every number of the format is a multiple of 2 ^ 11
  obtain ⟨k, rfl⟩ := h.isDouble.exists_mul_zpow (e := 11) (by norm_num at high ⊢; linarith)
  have above : ((2 ^ 53 - 1 : ℤ) : ℚ) < k := by
    norm_num at high ⊢
    linarith
  have hk : ((2 ^ 53 : ℤ) : ℚ) ≤ k := Int.cast_le.mpr (by exact_mod_cast above)
  norm_num at hk ⊢
  linarith

end IssueMarkdown.Binary64
