import IssueMarkdown.Terminal
import Mathlib.Data.List.Basic

/-! # Texts without escapes

A text in which no escape sequence begins is shown character by character, however it is cut
into pieces.
-/

namespace IssueMarkdown.Terminal

variable {c : Char} {t : Text} {ps : List Text}

/-- Whether a character is shown where no escape sequence is open. -/
def isShown (c : Char) : Bool := (step .ground c).2

theorem step_ground (hc : c ≠ '\x1b') : step .ground c = (.ground, isShown c) := by
  have hn : c.toNat ≠ 0x1b := fun he => hc (Char.toNat_inj.mp he)
  refine Prod.ext ?_ rfl
  simp only [step]
  split
  · simp only [asciiStep, if_neg hn]
    split <;> rfl
  · rfl

theorem copyState_ground (hc : c ≠ '\x1b') : copyState .ground c = .ground := by
  have hn : c.toNat ≠ 0x1b := fun he => hc (Char.toNat_inj.mp he)
  simp [copyState, hn]

/-- Where no sequence is open and none begins, it makes no difference what was copied before. -/
theorem strip_ground (ht : '\x1b' ∉ t) (copying : Bool) :
    strip .ground copying t = (.ground, t.filter isShown) := by
  induction t generalizing copying with
  | nil => rfl
  | cons c t ih =>
    rw [List.mem_cons, not_or] at ht
    have hs := step_ground (Ne.symm ht.1)
    have hk := copyState_ground (Ne.symm ht.1)
    simp only [strip, List.filter_cons]
    cases copying <;> cases h : isShown c <;> simp [hs, h, hk, ih ht.2]

theorem shown_eq_filter (h : ∀ p ∈ ps, '\x1b' ∉ p) : shown ps = ps.flatten.filter isShown := by
  unfold shown
  induction ps with
  | nil => rfl
  | cons p ps ih =>
    obtain ⟨hp, hps⟩ := List.forall_mem_cons.mp h
    rw [stripPieces, strip_ground hp, ih hps, List.flatten_cons, List.filter_append]

theorem shown_lineFeed (ht : '\x1b' ∉ t) : shown [t, ['\n']] = shown [t] ++ ['\n'] := by
  have hs : ∀ p ∈ [t, ['\n']], '\x1b' ∉ p := by simpa using ht
  rw [shown_eq_filter hs, shown_eq_filter (by simpa using ht)]
  simp [isShown, step, asciiStep, isWhite]

/-! ## Texts that are shown whole -/

theorem isShown_of_le (hc : ' ' ≤ c) (hd : c ≠ '\x7f') : isShown c := by
  have hn : c.toNat ≠ 0x7f := fun he => hd (Char.toNat_inj.mp he)
  have hl : 0x20 ≤ c.toNat := hc
  unfold isShown step
  split
  · have hw : between 0x20 0x7e c.toNat := by simp [between]; omega
    simp only [asciiStep, hw, Bool.or_true]
    split
    · omega
    · split
      · omega
      · rfl
  · rfl

theorem shown_eq_flatten (h : ∀ p ∈ ps, ∀ c ∈ p, isShown c) : shown ps = ps.flatten := by
  have hesc : ∀ p ∈ ps, '\x1b' ∉ p := fun p hp hm => absurd (h p hp _ hm) (by decide)
  rw [shown_eq_filter hesc, List.filter_eq_self]
  intro c hc
  obtain ⟨p, hp, hc⟩ := List.mem_flatten.mp hc
  exact h p hp c hc

end IssueMarkdown.Terminal
