import IssueMarkdown.Text.Decoding
import Mathlib.Data.Nat.Notation
import Mathlib.Tactic.SplitIfs

/-! # Texts as they are read from bytes

The bytes of a text are read as its characters, each of them with its last byte, so a text that is
sent in UTF-8 arrives as it is.
-/

namespace IssueMarkdown.Text

/-! ## Bytes of a text -/

section Bytes

variable {t : Text} {c : Char} {b : UInt8}

theorem utf8EncodeChar_of_lt (h : c.toNat < 128) :
    String.utf8EncodeChar c = [UInt8.ofNat c.toNat] :=
  if_pos (Nat.le_of_lt_succ h)

/-- A byte below 128 stands for the character of its number and is part of no other. -/
theorem toNat_of_mem_utf8EncodeChar (hb : b ∈ String.utf8EncodeChar c) (ascii : b.toNat < 128) :
    b.toNat = c.toNat := by
  have toNat : ∀ n, (UInt8.ofNat n).toNat = n % 256 := fun _ => UInt8.toNat_ofNat'
  have number : c.toNat = c.val.toNat := rfl
  rw [number]
  unfold String.utf8EncodeChar at hb
  generalize c.val.toNat = v at hb ⊢
  dsimp only at hb
  -- every byte of a longer encoding is 128 or more
  split at hb
  · obtain rfl := List.mem_singleton.mp hb
    rw [toNat]
    omega
  · exfalso
    split at hb
    · simp only [List.mem_cons, List.not_mem_nil, or_false] at hb
      rcases hb with rfl | rfl <;> rw [toNat] at ascii <;> omega
    · split at hb
      · simp only [List.mem_cons, List.not_mem_nil, or_false] at hb
        rcases hb with rfl | rfl | rfl <;> rw [toNat] at ascii <;> omega
      · simp only [List.mem_cons, List.not_mem_nil, or_false] at hb
        rcases hb with rfl | rfl | rfl | rfl <;> rw [toNat] at ascii <;> omega

theorem mem_of_mem_utf8 (hc : c.toNat < 128) (h : UInt8.ofNat c.toNat ∈ utf8 t) : c ∈ t := by
  obtain ⟨d, hd, hb⟩ := List.mem_flatMap.mp h
  have hn : (UInt8.ofNat c.toNat).toNat = c.toNat :=
    UInt8.toNat_ofNat_of_lt' (Nat.lt_trans hc (by decide))
  have he := toNat_of_mem_utf8EncodeChar hb (hn.symm ▸ hc)
  rwa [Char.toNat_inj.mp (hn.symm.trans he)]

end Bytes

/-! ## What is read of them -/

variable {a b d e f due low high bits : ℕ} {c : Char}

/-- What is read of bytes, and what is begun behind them. -/
def steps (p : Option Partial) : List UInt8 → Step
  | [] => ([], p)
  | b :: bs =>
    let (cs, p) := nextByte p b.toNat
    let (ds, p) := steps p bs
    (cs ++ ds, p)

theorem steps_cons {p p' : Option Partial} (h : nextByte p b = ([], p')) (hb : b < 256)
    (bs : List UInt8) : steps p (UInt8.ofNat b :: bs) = steps p' bs := by
  rw [steps, UInt8.toNat_ofNat_of_lt' hb, h]
  rfl

theorem steps_last {p : Option Partial} (h : nextByte p b = ([some c], none)) (hb : b < 256) :
    steps p [UInt8.ofNat b] = ([some c], none) := by
  rw [steps, UInt8.toNat_ofNat_of_lt' hb, h]
  rfl

/-- The last byte of a character. -/
theorem nextByte_last (hl : low ≤ d + 0x80) (hh : d + 0x80 ≤ high) :
    nextByte (some ⟨1, low, high, bits⟩) (d + 0x80) =
      ([some (Char.ofNat (64 * bits + d))], none) := by
  rw [nextByte, if_pos ⟨hl, hh⟩, Nat.add_sub_cancel, if_pos rfl]

/-- A byte of a character before the last one. -/
theorem nextByte_inner (hl : low ≤ d + 0x80) (hh : d + 0x80 ≤ high) :
    nextByte (some ⟨due + 2, low, high, bits⟩) (d + 0x80) =
      ([], some { due := due + 1, bits := 64 * bits + d }) := by
  rw [nextByte, if_pos ⟨hl, hh⟩, Nat.add_sub_cancel]
  exact if_neg (show due + 2 ≠ 1 by omega)

/-! Characters of two, of three and of four bytes. The bounds of the second byte hold for those
that need so many bytes, are no surrogates and are not too great. -/

theorem steps_two (ha : 2 ≤ a ∧ a < 32) (hd : d < 64) :
    steps none [UInt8.ofNat (a + 0xc0), UInt8.ofNat (d + 0x80)] =
      ([some (Char.ofNat (64 * a + d))], none) := by
  have first : nextByte none (a + 0xc0) = ([], some { due := 1, bits := a }) := by
    rw [nextByte, firstByte, if_neg (by omega), if_pos (by omega), Nat.add_sub_cancel]
  rw [steps_cons first (by omega)]
  exact steps_last (nextByte_last (by omega) (by omega)) (by omega)

theorem steps_three (ha : a < 16) (hd : d < 64) (he : e < 64) (long : a = 0 → 32 ≤ d)
    (scalar : a = 13 → d < 32) :
    steps none [UInt8.ofNat (a + 0xe0), UInt8.ofNat (d + 0x80), UInt8.ofNat (e + 0x80)] =
      ([some (Char.ofNat (64 * (64 * a + d) + e))], none) := by
  have first : nextByte none (a + 0xe0) =
      ([], some { due := 2, low := if a + 0xe0 = 0xe0 then 0xa0 else 0x80,
                  high := if a + 0xe0 = 0xed then 0x9f else 0xbf, bits := a }) := by
    rw [nextByte, firstByte, if_neg (by omega), if_neg (by omega), if_pos (by omega),
      Nat.add_sub_cancel]
  rw [steps_cons first (by omega), steps_cons (nextByte_inner _ _) (by omega)]
  · exact steps_last (nextByte_last (by omega) (by omega)) (by omega)
  · split_ifs <;> omega
  · split_ifs <;> omega

theorem steps_four (ha : a < 5) (hd : d < 64) (he : e < 64) (hf : f < 64)
    (long : a = 0 → 16 ≤ d) (last : a = 4 → d < 16) :
    steps none [UInt8.ofNat (a + 0xf0), UInt8.ofNat (d + 0x80), UInt8.ofNat (e + 0x80),
      UInt8.ofNat (f + 0x80)] =
      ([some (Char.ofNat (64 * (64 * (64 * a + d) + e) + f))], none) := by
  have first : nextByte none (a + 0xf0) =
      ([], some { due := 3, low := if a + 0xf0 = 0xf0 then 0x90 else 0x80,
                  high := if a + 0xf0 = 0xf4 then 0x8f else 0xbf, bits := a }) := by
    rw [nextByte, firstByte, if_neg (by omega), if_neg (by omega), if_neg (by omega),
      if_pos (by omega), Nat.add_sub_cancel]
  rw [steps_cons first (by omega), steps_cons (nextByte_inner _ _) (by omega),
    steps_cons (nextByte_inner (by omega) (by omega)) (by omega)]
  · exact steps_last (nextByte_last (by omega) (by omega)) (by omega)
  · split_ifs <;> omega
  · split_ifs <;> omega

/-- A character is read from its bytes, and nothing is begun behind them. -/
theorem steps_utf8EncodeChar (c : Char) :
    steps none (String.utf8EncodeChar c) = ([some c], none) := by
  have number : Char.ofNat c.val.toNat = c := Char.ofNat_toNat c
  have valid : c.val.toNat < 0xd800 ∨ 0xdfff < c.val.toNat ∧ c.val.toNat < 0x110000 := c.valid
  unfold String.utf8EncodeChar
  generalize c.val.toNat = v at number valid ⊢
  dsimp only
  split_ifs with one two three
  · have first : nextByte none v = ([some c], none) := number ▸ if_pos (by omega)
    exact steps_last first (by omega)
  · have bits : 64 * (v / 64 % 32) + v % 64 = v := by omega
    rw [steps_two (by omega) (by omega), bits, number]
  · have bits : 64 * (64 * (v / 4096 % 16) + v / 64 % 64) + v % 64 = v := by omega
    rw [steps_three (by omega) (by omega) (by omega) (by omega) (by omega), bits, number]
  · have bits : 64 * (64 * (64 * (v / 262144 % 8) + v / 4096 % 64) + v / 64 % 64) + v % 64 = v := by
      omega
    rw [steps_four (by omega) (by omega) (by omega) (by omega) (by omega) (by omega), bits, number]

end IssueMarkdown.Text
