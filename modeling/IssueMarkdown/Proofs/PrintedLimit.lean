import IssueMarkdown.Proofs.Limit
import Mathlib.Tactic.IntervalCases

/-! # Printed limits

A limit is printed digit by digit and read through a binary64 number. It is read back exactly if
the format has that number, or if it is the greatest limit, which rounding only takes further up.
-/

namespace IssueMarkdown.Limit

open Text Decimal Binary64

variable {l : Limit} {n : ℕ} {r : ℚ}

/-! ## Limits as numbers -/

theorem get?_injective : Function.Injective get? := by
  intro l m h
  cases l with
  | unlimited =>
    cases m with
    | unlimited => rfl
    | atMost => exact absurd h (Option.some_ne_none _).symm
  | atMost n =>
    cases m with
    | unlimited => exact absurd h (Option.some_ne_none _)
    | atMost k =>
      obtain rfl : n = k := Option.some.inj h
      rfl

theorem get?_ofNat_of_le (h1 : 1 ≤ n) (hn : n ≤ 2 ^ 64 - 1) : (ofNat n).get? = some n := by
  rw [ofNat_eq_atMost h1 (Nat.lt_of_le_pred (by decide) hn)]
  rfl

theorem display_of_get? (h : l.get? = some n) : l.display = Nat.toDigits 10 n := by
  cases l with
  | unlimited => exact absurd h (Option.some_ne_none _).symm
  | atMost k =>
    obtain rfl : k = n := Option.some.inj h
    rfl

/-! ## Digits -/

theorem isBlank_of_isDigit {c : Char} (h : c.isDigit) : isBlank c = false := by
  obtain ⟨low, high⟩ : 48 ≤ c.toNat ∧ c.toNat ≤ 57 := Char.isDigit_iff_toNat.mp h
  rw [← Char.ofNat_toNat c]
  interval_cases c.toNat <;> rfl

theorem allDigits_toDigits (n : ℕ) : AllDigits (Nat.toDigits 10 n) := fun _ hc =>
  Nat.isDigit_of_mem_toDigits (by decide) (by decide) hc

theorem decimalValue_toDigits (n : ℕ) : decimalValue (Nat.toDigits 10 n) = n :=
  Nat.ofDigitChars_toDigits (by decide) (by decide)

theorem literal_toDigits (n : ℕ) : Literal (Nat.toDigits 10 n) n := by
  have lit := Literal.intro .absent (.whole (allDigits_toDigits n) Nat.toDigits_ne_nil) .absent
  rw [decimalValue_toDigits] at lit
  simpa [decimalValue] using lit

theorem trims_toDigits (n : ℕ) : Trims (Nat.toDigits 10 n) (Nat.toDigits 10 n) where
  around := ⟨[], [], by simp, by simp, by simp⟩
  head c hc := isBlank_of_isDigit (allDigits_toDigits n c (List.mem_of_mem_head? hc))
  last c hc := isBlank_of_isDigit (allDigits_toDigits n c (List.mem_of_mem_getLast? hc))

/-! ## Reading what was printed -/

/-- A number of digits is read as what it rounds to. -/
theorem exists_get?_parse_toDigits (h1 : 1 ≤ n) (hn : n ≤ 2 ^ 64 - 1) :
    ∃ r, RoundsTo n r ∧ 1 ≤ r ∧
      (parse (Nat.toDigits 10 n)).get? = some (min ⌊r⌋₊ (2 ^ 64 - 1)) := by
  have below : (n : ℚ) < 2 ^ 64 := by exact_mod_cast Nat.lt_of_le_pred (by decide) hn
  obtain ⟨r, hr⟩ := exists_roundsTo (Nat.cast_nonneg n) (lt_overflow_of_lt below (by decide))
  have one : (1 : ℚ) ≤ r := by
    have := hr.le_of_isDouble (isDouble_natCast (by decide : 1 ≤ 2 ^ 53)) (Nat.cast_le.mpr h1)
    rwa [Nat.cast_one] at this
  exact ⟨r, hr, one,
    get?_parse_iff.mpr ⟨_, _, r, trims_toDigits n, literal_toDigits n, hr, one, rfl⟩⟩

/-- The whole part of a rounded number is the number again exactly if the format has it, and the
greatest limit is cut back to itself. -/
theorem min_floor_eq_iff (hr : RoundsTo n r) (h1 : 1 ≤ r) (hn : n ≤ 2 ^ 64 - 1) :
    min ⌊r⌋₊ (2 ^ 64 - 1) = n ↔ IsDouble n ∨ n = 2 ^ 64 - 1 := by
  have h0 : 0 ≤ r := zero_le_one.trans h1
  constructor
  · intro h
    rcases Nat.lt_or_ge ⌊r⌋₊ (2 ^ 64 - 1) with hlt | hge
    · rw [Nat.min_eq_left hlt.le] at h
      exact .inl (h ▸ hr.isDouble.floor h0)
    · rw [Nat.min_eq_right hge] at h
      exact .inr h.symm
  · rintro (h | rfl)
    · rw [hr.eq_of_isDouble h, Nat.floor_natCast, Nat.min_eq_left hn]
    · have top : RoundsTo (2 ^ 64 - 1) r := by
        convert hr using 1
        norm_num
      refine Nat.min_eq_right (Nat.le_floor ?_)
      calc ((2 ^ 64 - 1 : ℕ) : ℚ) ≤ 2 ^ 64 := by norm_num
        _ ≤ r := top.two_pow_le

theorem parse_toDigits_iff (h1 : 1 ≤ n) (hn : n ≤ 2 ^ 64 - 1) :
    (parse (Nat.toDigits 10 n)).get? = some n ↔ IsDouble n ∨ n = 2 ^ 64 - 1 := by
  obtain ⟨r, hr, one, hp⟩ := exists_get?_parse_toDigits h1 hn
  rw [hp, Option.some.injEq, min_floor_eq_iff hr one hn]

/-- Whatever was read is a number of the format or the greatest limit. -/
theorem isDouble_of_get?_parse {raw : Text} (h : (parse raw).get? = some n) :
    1 ≤ n ∧ n ≤ 2 ^ 64 - 1 ∧ (IsDouble n ∨ n = 2 ^ 64 - 1) := by
  obtain ⟨t, q, r, -, -, hr, h1, rfl⟩ := get?_parse_iff.mp h
  have one : 1 ≤ ⌊r⌋₊ := Nat.floor_pos.mpr h1
  refine ⟨Nat.le_min.mpr ⟨one, by decide⟩, Nat.min_le_right _ _, ?_⟩
  rcases Nat.lt_or_ge ⌊r⌋₊ (2 ^ 64 - 1) with hlt | hge
  · rw [Nat.min_eq_left hlt.le]
    exact .inl (hr.isDouble.floor (zero_le_one.trans h1))
  · exact .inr (Nat.min_eq_right hge)

theorem parse_display_unlimited : parse unlimited.display = unlimited := by decide

theorem parse_display_of_get? (hl : l.get? = some n) (h1 : 1 ≤ n) (hn : n ≤ 2 ^ 64 - 1) :
    parse l.display = l ↔ IsDouble n ∨ n = 2 ^ 64 - 1 := by
  rw [display_of_get? hl, ← get?_injective.eq_iff, hl]
  exact parse_toDigits_iff h1 hn

/-- What is printed for a limit that was read is read as that limit again. A limit that is set as a
number is read back exactly if the format has the number, or if it is the greatest one. -/
theorem parse_display_iff_isDouble :
    (∀ raw, parse (parse raw).display = parse raw) ∧
    (∀ n, 1 ≤ n → n ≤ 2 ^ 64 - 1 →
      (parse (ofNat n).display = ofNat n ↔ IsDouble n ∨ n = 2 ^ 64 - 1)) ∧
    parse unlimited.display = unlimited := by
  refine ⟨fun raw => ?_, fun n h1 hn => parse_display_of_get? (get?_ofNat_of_le h1 hn) h1 hn,
    parse_display_unlimited⟩
  cases hp : (parse raw).get? with
  | none =>
    have none : parse raw = unlimited := get?_injective hp
    rw [none, parse_display_unlimited]
  | some n =>
    obtain ⟨h1, hn, hd⟩ := isDouble_of_get?_parse hp
    exact (parse_display_of_get? hp h1 hn).mpr hd

/-- From 53 bits on only even numbers are read back, except the greatest of all. -/
theorem parse_display_iff_isDouble_beyond :
    (1 ≤ 2 ^ 53 + 2 ∧ 2 ^ 53 + 2 ≤ 2 ^ 64 - 1 ∧ IsDouble (2 ^ 53 + 2 : ℕ) ∧
      parse (ofNat (2 ^ 53 + 2)).display = ofNat (2 ^ 53 + 2)) ∧
    (¬ IsDouble (2 ^ 53 + 1 : ℕ) ∧ parse (ofNat (2 ^ 53 + 1)).display = ofNat (2 ^ 53)) ∧
    parse (ofNat (2 ^ 64 - 1)).display = ofNat (2 ^ 64 - 1) := by
  obtain ⟨-, readBack, -⟩ := parse_display_iff_isDouble
  have double : IsDouble (2 ^ 53 + 2 : ℕ) :=
    ⟨⟨2 ^ 52 + 1, 1⟩, by decide, by norm_num [value]⟩
  have odd : parse (ofNat (2 ^ 53 + 1)).display = ofNat (2 ^ 53) := by decide +kernel
  refine ⟨⟨by decide, by decide, double, (readBack _ (by decide) (by decide)).mpr (.inl double)⟩,
    ⟨fun h => ?_, odd⟩, (readBack _ (by decide) (by decide)).mpr (.inr rfl)⟩
  have same := (readBack _ (by decide) (by decide)).mpr (.inl h)
  exact absurd (odd.symm.trans same) (by decide)

end IssueMarkdown.Limit
