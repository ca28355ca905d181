import IssueMarkdown.Proofs.Literal
import IssueMarkdown.Rendering
import Mathlib.Data.ENat.Basic

/-! # Length limits

A limit keeps a number of characters, and of two limits only the tighter one matters. A raw
setting is a limit exactly if it is a literal that rounds to one or more.
-/

namespace IssueMarkdown.Limit

open Text Decimal Binary64

/-- No limit is looser than every number. -/
def bound : Limit → ℕ∞
  | unlimited => ⊤
  | atMost n _ _ => n

instance : Preorder Limit := Preorder.lift bound

/-- The raw text is a literal that rounds to one or more, and `n` is the whole part of that
number or the greatest number of 64 bits. -/
def Sets (raw : Text) (n : ℕ) : Prop :=
  ∃ t q r, Trims raw t ∧ Literal t q ∧ RoundsTo q r ∧ 1 ≤ r ∧ n = min ⌊r⌋₊ (2 ^ 64 - 1)

variable {l m : Limit} {n k : ℕ} {raw t : Text} {q r : ℚ}

/-! ## Cutting -/

theorem cap_eq_ite (hl : l.get? = some n) (t : Text) :
    l.cap t = if t.length ≤ n then t else t.take n ++ ellipsis := by
  split_ifs with h
  · exact cap_of_length_le hl h
  · exact cap_of_lt_length hl (not_le.mp h)

theorem exists_get?_of_le {pos : 0 < k} {fits : k < UInt64.size} (h : l ≤ atMost k pos fits) :
    ∃ n, l.get? = some n ∧ n ≤ k := by
  cases l with
  | unlimited => exact absurd (top_le_iff.mp h) (ENat.natCast_ne_top k)
  | atMost n =>
    have hb : (n : ℕ∞) ≤ k := h
    exact ⟨n, rfl, Nat.cast_le.mp hb⟩

/-- The tighter limit cuts before the ellipsis of the looser one begins. -/
theorem cap_cap_of_le (h : l ≤ m) (t : Text) : l.cap (m.cap t) = l.cap t := by
  cases m with
  | unlimited => rfl
  | atMost k pos fits =>
    have hm : (atMost k pos fits).get? = some k := rfl
    obtain ⟨n, hl, hnk⟩ := exists_get?_of_le h
    rcases Nat.lt_or_ge k t.length with hk | hk
    · have kept : n ≤ (t.take k).length := by
        rw [List.length_take]
        omega
      have longer : n < (t.take k ++ ellipsis).length := by
        rw [List.length_append]
        exact Nat.lt_of_le_of_lt kept (Nat.lt_add_of_pos_right (by decide))
      calc l.cap ((atMost k pos fits).cap t) = l.cap (t.take k ++ ellipsis) := by
            rw [cap_of_lt_length hm hk]
        _ = (t.take k).take n ++ ellipsis := by
            rw [cap_of_lt_length hl longer, List.take_append_of_le_length kept]
        _ = l.cap t := by
            rw [List.take_take, Nat.min_eq_left hnk, cap_of_lt_length hl (hnk.trans_lt hk)]
    · rw [cap_of_length_le hm hk]

/-- Descriptions and what stands for missing ones are cut alike, after just as many characters as
the limit says, and a cap makes any looser one before it void. -/
theorem render_take_and_cap_absorbs :
    (∀ (missing : Missing) (description : Option Text) (l : Limit) (n : ℕ), l.get? = some n →
      let d := missing.describe description
      let rendered := (Rendering.mk missing l).render description
      (rendered = if d.length ≤ n then d else d.take n ++ "...".toList) ∧
        rendered.length ≤ n + 3) ∧
    (∀ (l m : Limit) (x : Text), l ≤ m → l.cap (m.cap x) = l.cap x) ∧
    ∀ (l : Limit) (x : Text), l.cap (l.cap x) = l.cap x :=
  ⟨fun _ _ _ _ hl => ⟨cap_eq_ite hl _, length_cap_le hl _⟩, fun _ _ x h => cap_cap_of_le h x,
    fun _ x => cap_cap_of_le le_rfl x⟩

theorem render_take_and_cap_absorbs_accented :
    (Rendering.mk .empty (ofNat 3)).render (some "\x7b\x7bné\x7d\x7d".toList) =
        "`né...".toList ∧
      ofNat 3 ≤ ofNat 4 ∧
      (ofNat 3).cap ((ofNat 4).cap "né né".toList) = (ofNat 3).cap "né né".toList := by
  have described :
      Missing.empty.describe (some "\x7b\x7bné\x7d\x7d".toList) = "`né`".toList := by cbv
  have tighter : ofNat 3 ≤ ofNat 4 := Nat.cast_le (α := ℕ∞).mpr (by decide)
  obtain ⟨rendered, absorbed, -⟩ := render_take_and_cap_absorbs
  have cut := (rendered .empty (some "\x7b\x7bné\x7d\x7d".toList) (ofNat 3) 3 rfl).1
  rw [described] at cut
  exact ⟨cut, tighter, absorbed _ _ _ tighter⟩

/-! ## Raw settings -/

theorem get?_parse (raw : Text) (n : ℕ) : (parse raw).get? = some n ↔
    ∃ d b, parse? (trim raw) = some d ∧ d.negative = false ∧ d.nearest? = some b ∧
      1 ≤ b.floor ∧ n = min b.floor (2 ^ 64 - 1) := by
  have size : UInt64.size - 1 = 2 ^ 64 - 1 := rfl
  constructor
  · intro h
    unfold parse at h
    split at h
    · simp [get?] at h
    · rename_i d hd
      split_ifs at h with hneg
      · simp [get?] at h
      · cases hb : d.nearest? with
        | none => simp [hb, get?] at h
        | some b =>
          rw [hb, Option.map_some, Option.getD_some, get?_ofNat,
            Option.ite_none_left_eq_some] at h
          exact ⟨d, b, hd, Bool.eq_false_of_not_eq_true hneg, hb, Nat.one_le_iff_ne_zero.mpr h.1,
            (Option.some.inj h.2).symm⟩
  · rintro ⟨d, b, hd, hneg, hb, h1, rfl⟩
    simp [parse, hd, hneg, hb, get?_ofNat, Nat.one_le_iff_ne_zero.mp h1, size]

/-- Only what is above zero rounds to one or more, so that signs are read away. -/
theorem get?_parse_iff : (parse raw).get? = some n ↔ Sets raw n := by
  rw [get?_parse]
  constructor
  · rintro ⟨d, b, hd, hneg, hb, h1, hn⟩
    rw [floor_eq] at h1 hn
    have h1' : 1 ≤ b.value := Nat.floor_pos.mp h1
    have rounded := (roundsTo_iff b.value_nonneg).mpr ⟨b, hb, rfl⟩
    have hq := rounded.pos (one_pos.trans_le h1')
    exact ⟨_, _, _, trims_trim raw, (literal_iff_of_pos hq).mpr ⟨d, hd, hneg, rfl⟩, rounded, h1',
      hn⟩
  · rintro ⟨t, q, r, ht, hl, hr, h1, rfl⟩
    have hr0 : 0 < r := one_pos.trans_le h1
    obtain ⟨d, hd, hneg, rfl⟩ := (literal_iff_of_pos (hr.pos hr0)).mp hl
    obtain ⟨b, hb, rfl⟩ := (roundsTo_iff hr0.le).mp hr
    rw [← ht.trim_eq] at hd
    exact ⟨d, b, hd, hneg, hb, floor_eq b ▸ Nat.floor_pos.mpr h1, by rw [floor_eq]⟩

-- the value is below one, but it rounds to one
example : parse "0.99999999999999999".toList = ofNat 1 := by decide

theorem parse_eq_unlimited_iff : parse raw = unlimited ↔ ∀ n, ¬ Sets raw n := by
  simp only [← get?_parse_iff]
  cases parse raw with
  | unlimited => simp [get?]
  | atMost n => simp [get?]

/-- Below 53 bits rounding passes no whole number. -/
theorem exists_sets_of_lt (ht : Trims raw t) (hl : Literal t q) (h1 : 1 ≤ q)
    (hq : q < 2 ^ 53) :
    ∃ n, Sets raw n ∧ ⌊q⌋₊ ≤ n ∧ n ≤ ⌊q⌋₊ + 1 ∧ ∀ k : ℤ, q = k → (n : ℤ) = k := by
  have h0 : 0 ≤ q := zero_le_one.trans h1
  obtain ⟨r, hr⟩ := exists_roundsTo h0 (lt_overflow_of_lt hq (by decide))
  obtain ⟨low, high⟩ := hr.floor_within h0 hq
  have below : ⌊q⌋₊ < 2 ^ 53 := (Nat.floor_lt h0).mpr (by exact_mod_cast hq)
  have hr1 : 1 ≤ r := Nat.floor_pos.mp ((Nat.floor_pos.mpr h1).trans_le low)
  have fits : min ⌊r⌋₊ (2 ^ 64 - 1) = ⌊r⌋₊ := Nat.min_eq_left (by omega)
  refine ⟨⌊r⌋₊, ⟨t, q, r, ht, hl, hr, hr1, fits.symm⟩, low, high, ?_⟩
  -- a whole number below 53 bits rounds to itself
  rintro k rfl
  lift k to ℕ using by exact_mod_cast h0
  rw [Int.cast_natCast] at hr below
  rw [Nat.floor_natCast] at below
  rw [hr.eq_natCast below.le, Nat.floor_natCast]

/-- A raw text is a limit exactly if it is a literal that rounds to one or more; below 53 bits
the limit is the whole part of what it denotes or one more. -/
theorem get?_parse_iff_sets (raw : Text) :
    (∀ n, (parse raw).get? = some n ↔ Sets raw n) ∧
    ((∀ n, ¬ Sets raw n) → parse raw = unlimited) ∧
    ∀ t q, Trims raw t → Literal t q → 1 ≤ q → q < 2 ^ 53 →
      ∃ n, (parse raw).get? = some n ∧ ⌊q⌋₊ ≤ n ∧ n ≤ ⌊q⌋₊ + 1 ∧
        ∀ k : ℤ, q = k → (n : ℤ) = k := by
  refine ⟨fun n => get?_parse_iff, parse_eq_unlimited_iff.mpr, fun t q ht hl h1 hq => ?_⟩
  simpa only [get?_parse_iff] using exists_sets_of_lt ht hl h1 hq

theorem get?_parse_iff_sets_exponent :
    Trims " +.25E2\n".toList "+.25E2".toList ∧ Literal "+.25E2".toList 25 ∧
      (parse " +.25E2\n".toList).get? = some 25 := by
  have trims : Trims " +.25E2\n".toList "+.25E2".toList := trim_eq_iff.mp (by decide)
  have read : Literal "+.25E2".toList 25 :=
    literal_iff.mpr ⟨⟨false, 25, 0⟩, by decide, by norm_num [magnitude]⟩
  obtain ⟨n, hn, -, -, exact⟩ := (get?_parse_iff_sets _).2.2 _ 25 trims read (by norm_num)
    (by norm_num)
  obtain rfl : n = 25 := by exact_mod_cast exact 25 (by norm_num)
  exact ⟨trims, read, hn⟩

end IssueMarkdown.Limit
