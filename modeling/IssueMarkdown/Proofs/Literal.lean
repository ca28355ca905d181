import IssueMarkdown.Decimal
import IssueMarkdown.Proofs.Recognition
import IssueMarkdown.Proofs.Rounding

/-! # Decimal literals

The grammar of literals with the rational number that each denotes. Reading accepts exactly the
literals, and what it reads has their value; rounding a literal rounds that value.
-/

namespace IssueMarkdown.Decimal

open Text

def AllDigits (t : Text) : Prop := ∀ c ∈ t, c.isDigit

/-- A sign, if there is one, and whether it is a minus. -/
inductive Sign : Text → Bool → Prop where
  | absent : Sign [] false
  | plus : Sign ['+'] false
  | minus : Sign ['-'] true

/-- Digits with at most one point anywhere among them: those before the point and after it. -/
inductive Digits : Text → Text → Text → Prop where
  | whole {w : Text} (hw : AllDigits w) (hn : w ≠ []) : Digits w w []
  | point {w f : Text} (hw : AllDigits w) (hf : AllDigits f) (hn : w ++ f ≠ []) :
      Digits (w ++ '.' :: f) w f

/-- A power of ten, if there is one. -/
inductive Power : Text → ℤ → Prop where
  | absent : Power [] 0
  | present {c : Char} {s ds : Text} {neg : Bool} (hc : c = 'e' ∨ c = 'E') (hs : Sign s neg)
      (hd : AllDigits ds) (hn : ds ≠ []) :
      Power (c :: (s ++ ds)) (if neg then -decimalValue ds else decimalValue ds)

/-- A literal and the number that it denotes. -/
inductive Literal : Text → ℚ → Prop where
  | intro {s m w f p : Text} {neg : Bool} {e : ℤ} (hs : Sign s neg) (hm : Digits m w f)
      (hp : Power p e) : Literal (s ++ (m ++ p))
        ((if neg then -1 else 1) * (decimalValue w + decimalValue f / 10 ^ f.length) * 10 ^ e)

/-- The magnitude of what was read. -/
def magnitude (d : Decimal) : ℚ := d.digits * 10 ^ d.exponent

variable {t s m w f p r : Text} {neg : Bool} {e k : ℤ} {d : Decimal}

/-! ## Reading -/

theorem exists_sign (t : Text) : ∃ s, Sign s (sign t).1 ∧ t = s ++ (sign t).2 := by
  unfold sign
  split
  · exact ⟨['-'], .minus, rfl⟩
  · exact ⟨['+'], .plus, rfl⟩
  · exact ⟨[], .absent, rfl⟩

theorem sign_append (hs : Sign s neg) (hr : ∀ c ∈ r.head?, c ≠ '+' ∧ c ≠ '-') :
    sign (s ++ r) = (neg, r) := by
  cases hs with
  | absent =>
    cases r with
    | nil => rfl
    | cons c r =>
      have hc := hr c rfl
      simp [sign, hc]
  | plus => rfl
  | minus => rfl

theorem ne_sign_of_isDigit {c : Char} (hc : c.isDigit) : c ≠ '+' ∧ c ≠ '-' := by
  constructor <;> rintro rfl <;> exact absurd hc (by decide)

theorem AllDigits.head_not_sign (h : AllDigits w) : ∀ c ∈ w.head?, c ≠ '+' ∧ c ≠ '-' :=
  fun c hc => ne_sign_of_isDigit (h c (List.mem_of_mem_head? hc))

theorem signed?_eq_some_iff : signed? t = some k ↔ ∃ s ds neg, Sign s neg ∧ AllDigits ds ∧
    ds ≠ [] ∧ t = s ++ ds ∧ k = if neg then -(decimalValue ds : ℤ) else decimalValue ds := by
  constructor
  · intro h
    obtain ⟨s, hs, ht⟩ := exists_sign t
    simp only [signed?] at h
    split at h
    · simp at h
    · rename_i hd
      simp only [Bool.or_eq_true, List.isEmpty_iff, Bool.not_eq_true', not_or,
        Bool.not_eq_false, List.all_eq_true] at hd
      exact ⟨s, _, _, hs, hd.2, hd.1, ht, (Option.some.inj h).symm⟩
  · rintro ⟨s, ds, neg, hs, hd, hn, rfl, rfl⟩
    have all : ds.all Char.isDigit = true := List.all_eq_true.mpr hd
    simp [signed?, sign_append hs hd.head_not_sign, all, hn]

theorem power?_eq_some_iff : power? t = some e ↔ Power t e := by
  constructor
  · intro h
    cases t with
    | nil => exact Option.some.inj h ▸ .absent
    | cons c t =>
      simp only [power?, Option.ite_none_right_eq_some, Bool.or_eq_true, beq_iff_eq] at h
      obtain ⟨s, ds, neg, hs, hd, hn, rfl, rfl⟩ := signed?_eq_some_iff.mp h.2
      exact .present h.1 hs hd hn
  · rintro (_ | ⟨hc, hs, hd, hn⟩)
    · rfl
    · rw [power?, if_pos (by simpa using hc)]
      exact signed?_eq_some_iff.mpr ⟨_, _, _, hs, hd, hn, rfl, rfl⟩

theorem Power.head_eq (h : Power p e) : ∀ c ∈ p.head?, c = 'e' ∨ c = 'E' := by
  rcases h with _ | ⟨hc, -, -, -⟩
  · simp
  · simpa using hc

theorem Power.not_isDigit (h : Power p e) : ∀ c ∈ p.head?, c.isDigit = false := by
  intro c hc
  rcases h.head_eq c hc with rfl | rfl <;> decide

theorem fraction_of_power (h : Power p e) : fraction p = ([], p) := by
  unfold fraction
  split
  · rename_i t
    rcases h.head_eq '.' rfl with h | h <;> exact absurd h (by decide)
  · rfl

theorem fraction_point (hf : AllDigits f) (h : Power p e) :
    fraction ('.' :: (f ++ p)) = (f, p) := by
  rw [fraction, takeWhile_append_of_stop hf h.not_isDigit,
    dropWhile_append_of_stop hf h.not_isDigit]

theorem Digits.read (hm : Digits m w f) (hp : Power p e) :
    (m ++ p).takeWhile Char.isDigit = w ∧
      fraction ((m ++ p).dropWhile Char.isDigit) = (f, p) := by
  rcases hm with ⟨hw, -⟩ | ⟨hw, hf, -⟩
  · exact ⟨takeWhile_append_of_stop hw hp.not_isDigit, by
      rw [dropWhile_append_of_stop hw hp.not_isDigit, fraction_of_power hp]⟩
  · have stop : ∀ c ∈ ('.' :: (f ++ p)).head?, c.isDigit = false := by simp
    rw [List.append_assoc, List.cons_append]
    exact ⟨takeWhile_append_of_stop hw stop, by
      rw [dropWhile_append_of_stop hw stop, fraction_point hf hp]⟩

theorem exists_digits (t : Text) (hn : t.takeWhile Char.isDigit ++
    (fraction (t.dropWhile Char.isDigit)).1 ≠ []) :
    ∃ m, Digits m (t.takeWhile Char.isDigit) (fraction (t.dropWhile Char.isDigit)).1 ∧
      t = m ++ (fraction (t.dropWhile Char.isDigit)).2 := by
  have whole : AllDigits (t.takeWhile Char.isDigit) := fun c hc => List.mem_takeWhile_imp hc
  have ht := List.takeWhile_append_dropWhile (p := Char.isDigit) (l := t)
  generalize t.dropWhile Char.isDigit = r at hn ht ⊢
  unfold fraction at hn ⊢
  split at hn
  · rename_i r
    -- the point belongs to the literal even where no digit follows it
    refine ⟨_, .point whole (fun c hc => List.mem_takeWhile_imp hc) hn, ?_⟩
    rw [List.append_assoc, List.cons_append, List.takeWhile_append_dropWhile, ht]
  · exact ⟨_, .whole whole (by simpa using hn), ht.symm⟩

/-! ## Values -/

theorem foldl_digits (t : Text) (n : ℕ) : t.foldl (fun n c => 10 * n + digitValue c) n =
    n * 10 ^ t.length + decimalValue t := by
  rw [decimalValue]
  induction t generalizing n with
  | nil => simp
  | cons c t ih =>
    rw [List.foldl_cons, List.foldl_cons, ih, ih (10 * 0 + digitValue c), List.length_cons]
    ring

theorem decimalValue_append (w f : Text) :
    decimalValue (w ++ f) = decimalValue w * 10 ^ f.length + decimalValue f := by
  rw [decimalValue, List.foldl_append, foldl_digits]
  rfl

/-- Digits after the point count for less by a power of ten. -/
theorem decimalValue_append_mul_zpow (w f : Text) (e : ℤ) :
    (decimalValue (w ++ f) : ℚ) * 10 ^ (e - f.length) =
      (decimalValue w + decimalValue f / 10 ^ f.length) * 10 ^ e := by
  rw [decimalValue_append, zpow_sub₀ (by norm_num), zpow_natCast]
  push_cast
  field_simp

theorem Digits.head_not_sign (hm : Digits m w f) : ∀ c ∈ (m ++ p).head?, c ≠ '+' ∧ c ≠ '-' := by
  rcases hm with ⟨hw, hn⟩ | ⟨hw, -, -⟩
  · obtain ⟨c, w, rfl⟩ := List.exists_cons_of_ne_nil hn
    exact hw.head_not_sign
  · cases w with
    | nil => simp
    | cons c w => exact hw.head_not_sign

theorem Digits.ne_nil (hm : Digits m w f) : w ++ f ≠ [] := by
  rcases hm with ⟨-, hn⟩ | ⟨-, -, hn⟩
  · rwa [List.append_nil]
  · exact hn

theorem parse?_append (hs : Sign s neg) (hm : Digits m w f) (hp : Power p e) :
    parse? (s ++ (m ++ p)) = some ⟨neg, decimalValue (w ++ f), e - f.length⟩ := by
  obtain ⟨hw, hf⟩ := hm.read hp
  simp [parse?, sign_append hs hm.head_not_sign, hw, hf, hm.ne_nil, power?_eq_some_iff.mpr hp]

/-- What is read is a literal, and every literal is read, with its value. -/
theorem literal_iff {q : ℚ} : Literal t q ↔
    ∃ d, parse? t = some d ∧ q = (if d.negative then -1 else 1) * d.magnitude := by
  constructor
  · rintro @⟨s, m, w, f, p, neg, e, hs, hm, hp⟩
    refine ⟨_, parse?_append hs hm hp, ?_⟩
    rw [magnitude, decimalValue_append_mul_zpow, mul_assoc]
  · rintro ⟨d, h, rfl⟩
    obtain ⟨s, hs, ht⟩ := exists_sign t
    simp only [parse?] at h
    split at h
    · simp at h
    · rename_i hn
      obtain ⟨e, he, rfl⟩ := Option.map_eq_some_iff.mp h
      obtain ⟨m, hm, hr⟩ := exists_digits (sign t).2 (by simpa using hn)
      have lit := Literal.intro hs hm (power?_eq_some_iff.mp he)
      rw [← hr, ← ht] at lit
      rwa [magnitude, decimalValue_append_mul_zpow, ← mul_assoc]

theorem magnitude_nonneg (d : Decimal) : 0 ≤ d.magnitude := by
  unfold magnitude
  positivity

/-- A literal above zero is read without a minus. -/
theorem literal_iff_of_pos {q : ℚ} (hq : 0 < q) : Literal t q ↔
    ∃ d, parse? t = some d ∧ d.negative = false ∧ q = d.magnitude := by
  rw [literal_iff]
  refine exists_congr fun d => and_congr_right fun _ => ?_
  cases d.negative with
  | false => simp
  | true =>
    have := d.magnitude_nonneg
    simp only [if_true, Bool.true_eq_false, false_and, iff_false]
    intro h
    linarith

/-! ## Rounding -/

theorem two_pow_le_ten_pow {k n : ℕ} (h : k ≤ 3 * n) : (2 : ℚ) ^ k ≤ 10 ^ n := by
  calc (2 : ℚ) ^ k ≤ 2 ^ (3 * n) := pow_le_pow_right₀ one_le_two h
    _ = 8 ^ n := by rw [pow_mul]; norm_num
    _ ≤ 10 ^ n := pow_le_pow_left₀ (by norm_num) (by norm_num) n

/-- The bits of the digits bound how many digits there are. -/
theorem magnitude_lt (d : Decimal) :
    d.magnitude < 10 ^ (d.exponent + d.digits.log2 / 3 + 1 : ℤ) := by
  have digits : (d.digits : ℚ) < 10 ^ (d.digits.log2 / 3 + 1) := by
    calc (d.digits : ℚ) < 2 ^ (d.digits.log2 + 1) := by exact_mod_cast Nat.lt_log2_self
      _ ≤ 10 ^ (d.digits.log2 / 3 + 1) := two_pow_le_ten_pow (by omega)
  calc d.magnitude < 10 ^ (d.digits.log2 / 3 + 1) * 10 ^ d.exponent :=
        mul_lt_mul_of_pos_right digits (by positivity)
    _ = 10 ^ (d.exponent + d.digits.log2 / 3 + 1 : ℤ) := by
        rw [← zpow_natCast, ← zpow_add₀ (by norm_num)]
        congr 1
        push_cast
        ring

/-- Half of the least number of the format is above whatever is this small. -/
theorem roundsTo_zero (h : d.digits = 0 ∨ d.exponent + d.digits.log2 / 3 + 1 < -400) :
    Binary64.RoundsTo d.magnitude Binary64.zero.value := by
  refine Binary64.roundsTo_zero d.magnitude_nonneg ?_
  rcases h with h | h
  · rw [magnitude, h, Nat.cast_zero, zero_mul, mul_zero]
    exact Binary64.zpow_two_pos _
  · calc 2 * d.magnitude < 2 * 10 ^ (d.exponent + d.digits.log2 / 3 + 1 : ℤ) :=
          mul_lt_mul_of_pos_left d.magnitude_lt two_pos
      _ ≤ 2 * 10 ^ (-(401 : ℕ) : ℤ) :=
          mul_le_mul_of_nonneg_left (zpow_le_zpow_right₀ (by norm_num) (by omega)) two_pos.le
      _ ≤ 2 * 2 ^ (-(1075 : ℕ) : ℤ) := by
          rw [zpow_neg, zpow_neg, zpow_natCast, zpow_natCast]
          exact mul_le_mul_of_nonneg_left
            (inv_anti₀ (by positivity) (two_pow_le_ten_pow (by decide))) two_pos.le
      _ = 2 ^ (-1074 : ℤ) := by
          rw [← zpow_one_add₀ two_ne_zero]
          rfl

theorem overflow_le_magnitude (hn : d.digits ≠ 0) (he : 400 < d.exponent) :
    Binary64.overflow ≤ d.magnitude := by
  have digits : (1 : ℚ) ≤ d.digits := by exact_mod_cast Nat.one_le_iff_ne_zero.mpr hn
  calc Binary64.overflow ≤ 2 ^ 54 * 2 ^ (970 : ℤ) := by
        rw [Binary64.overflow_eq]
        exact mul_le_mul_of_nonneg_right (by norm_num) (Binary64.zpow_two_pos _).le
    _ = 2 ^ 1024 := by rw [Binary64.two_pow_mul_zpow]; rfl
    _ ≤ 10 ^ 401 := two_pow_le_ten_pow (by decide)
    _ ≤ 10 ^ d.exponent := by
        rw [← zpow_natCast]
        exact zpow_le_zpow_right₀ (by norm_num) he
    _ ≤ d.magnitude := le_mul_of_one_le_left (by positivity) digits

theorem magnitude_eq_div (d : Decimal) : d.magnitude =
    (d.digits * Nat.pow 10 d.exponent.toNat : ℕ) / (Nat.pow 10 (-d.exponent).toNat : ℕ) := by
  rw [magnitude, Binary64.zpow_eq_div_toNat, Nat.pow_eq, Nat.pow_eq, ← mul_div_assoc]
  push_cast
  rfl

/-- A literal is rounded, or is beyond the greatest number. -/
theorem nearest?_cases (d : Decimal) :
    (∃ b, d.nearest? = some b ∧ Binary64.RoundsTo d.magnitude b.value) ∨
      d.nearest? = none ∧ Binary64.overflow ≤ d.magnitude := by
  unfold nearest?
  split_ifs with small large
  · exact .inl ⟨_, rfl, roundsTo_zero small⟩
  · exact .inr ⟨rfl, overflow_le_magnitude (not_or.mp small).1 large⟩
  · -- the powers of ten are small enough to be computed, and the quotient is exact
    rw [magnitude_eq_div]
    exact Binary64.nearest?_cases _ (Nat.pow_pos (by decide))

theorem roundsTo_iff {r : ℚ} (hr : 0 ≤ r) : Binary64.RoundsTo d.magnitude r ↔
    ∃ b, d.nearest? = some b ∧ r = b.value := by
  rcases d.nearest?_cases with ⟨b, hb, rounded⟩ | ⟨none, beyond⟩
  · simp only [hb, Option.some.injEq, exists_eq_left']
    constructor
    · exact fun h => h.unique rounded hr b.value_nonneg
    · rintro rfl
      exact rounded
  · simp only [none, reduceCtorEq, false_and, exists_false, iff_false]
    intro h
    have inRange := h.inRange
    rw [abs_of_nonneg d.magnitude_nonneg] at inRange
    exact absurd beyond inRange.not_ge

end IssueMarkdown.Decimal
