import IssueMarkdown.Proofs.Settling
import Mathlib.Algebra.GroupWithZero.Nat
import Mathlib.Algebra.Order.BigOperators.Group.List

/-! # Rules in any order

No rule adds or takes away a line, whatever ran before it. A rule that looks for brackets
takes some away when it changes a text; one that looks at how lines begin takes none, but
brings a line closer to its last form, and a line is at most two such changes away from it.
So only boundedly many steps of any run change the text.
-/

namespace IssueMarkdown.Markup

open Text Pattern

variable {l t : Text} {p : Pattern} {r : Rule}

/-! ## Line feeds -/

theorem count_lineFeed_replace (hp : p ∈ r.patterns) (t : Text) :
    (p.replace t).count '\n' = t.count '\n' := by
  by_cases hr : r = .panel
  · subst hr
    rcases List.mem_pair.mp hp with rfl | rfl
    · exact lineLocal_panelOpenPattern.count_replace true t
    · -- a note keeps the break of the two lines it is made of
      refine panelClosePattern_turns.count_replaceFrom ?_ true t
      rintro u v ⟨c, br, rfl, rfl⟩
      have hc : panelCloser.count '\n' = 0 := by decide
      have hn : noteHead.count '\n' = 0 := by decide
      have hs : ['>', ' '].count '\n' = 0 := by decide
      simp only [List.count_append]
      omega
  · exact (lineLocal_of_mem_patterns hr hp).count_replace true t

theorem count_lineFeed_apply (r : Rule) (t : Text) : (r.apply t).count '\n' = t.count '\n' :=
  List.foldlRecOn (motive := fun s => s.count '\n' = t.count '\n') r.patterns _ rfl
    fun s hs _ hp => (count_lineFeed_replace hp s).trans hs

theorem count_lineFeed_applyAll (rs : List Rule) (t : Text) :
    (Rule.applyAll rs t).count '\n' = t.count '\n' :=
  List.foldlRecOn (motive := fun s => s.count '\n' = t.count '\n') rs _ rfl
    fun s hs r _ => (count_lineFeed_apply r s).trans hs

theorem length_lines (t : Text) : (lines t).length = t.count '\n' + 1 := by
  induction t using line_induction with
  | last l hl => rw [lines_of_notMem hl, List.count_eq_zero.mpr hl, List.length_singleton]
  | more l t hl ih =>
    rw [lines_cons hl, List.length_cons, ih, List.count_append, List.count_cons_self,
      List.count_eq_zero.mpr hl, Nat.zero_add]

/-! ## Changes still to come -/

/-- How often the line rules can still change a line: a heading may become a list item. -/
def pending (l : Text) : ℕ :=
  if (heading? l).isSome then 2 else if (after? ['#', ' '] l).isSome then 1 else 0

theorem pending_le (l : Text) : pending l ≤ 2 := by
  unfold pending
  split_ifs <;> omega

theorem pending_hash_le (l : Text) : pending ('#' :: l) ≤ 1 := by
  show (if (after? ['#', ' '] ('#' :: l)).isSome then 1 else 0) ≤ 1
  split_ifs <;> omega

theorem pending_heading {d : Char} (h₁ : '1' ≤ d) (h₂ : d ≤ '6') (l : Text) :
    pending ('h' :: d :: '.' :: l) = 2 := by
  rw [pending, heading?_eq_some_iff.mpr ⟨d, l, h₁, h₂, rfl, rfl, rfl⟩]
  rfl

theorem numbered_eq_or_pending_lt (l : Text) :
    numbered l = l ∨ pending (numbered l) < pending l := by
  rcases line_cases l with ⟨s, rfl⟩ | ⟨d, s, -, -, rfl⟩ | ⟨hn, -⟩
  · exact .inr Nat.zero_lt_one
  · exact .inl (numbered_heading d s)
  · exact .inl hn

theorem titled_eq_or_pending_lt (l : Text) : titled l = l ∨ pending (titled l) < pending l := by
  rcases line_cases l with ⟨s, rfl⟩ | ⟨d, s, h₁, h₂, rfl⟩ | ⟨-, ht⟩
  · exact .inl rfl
  · right
    rw [titled_heading h₁ h₂, replicate_depth h₁, pending_heading h₁ h₂]
    exact Nat.lt_succ_of_le (pending_hash_le _)
  · exact .inl ht

/-- The changes that the line rules can still make in a text. -/
def pendingLines (t : Text) : ℕ := ((lines t).map pending).sum

theorem pendingLines_le (t : Text) : pendingLines t ≤ 2 * (lines t).length := by
  have h := List.sum_le_card_nsmul ((lines t).map pending) 2
    (List.forall_mem_map.mpr fun l _ => pending_le l)
  rwa [List.length_map, smul_eq_mul, Nat.mul_comm] at h

theorem map_eq_self_or_sum_lt {f : Text → Text} {μ : Text → ℕ}
    (hf : ∀ l, f l = l ∨ μ (f l) < μ l) (ls : List Text) :
    ls.map f = ls ∨ ((ls.map f).map μ).sum < (ls.map μ).sum := by
  induction ls with
  | nil => exact .inl rfl
  | cons l ls ih =>
    have hl : μ (f l) ≤ μ l := by
      rcases hf l with h | h
      · rw [h]
      · exact h.le
    rcases ih with ih | ih
    · rcases hf l with h | h
      · left
        rw [List.map_cons, h, ih]
      · right
        rw [List.map_cons, ih]
        simpa using h
    · right
      simp only [List.map_cons, List.sum_cons]
      omega

theorem apply_eq_or_pendingLines_lt (hr : r ∈ lineRules) (t : Text) :
    r.apply t = t ∨ pendingLines (r.apply t) < pendingLines t := by
  -- what the rule does to a text, it does to each of its lines
  have step : ∀ {f : Text → Text}, lines (r.apply t) = (lines t).map f →
      (∀ l, f l = l ∨ pending (f l) < pending l) →
      r.apply t = t ∨ pendingLines (r.apply t) < pendingLines t := by
    intro f hlines hf
    rcases map_eq_self_or_sum_lt hf (lines t) with h | h
    · exact .inl (lines_injective (hlines.trans h))
    · right
      rwa [pendingLines, hlines]
  cases r with
  | numberedLists => exact step (lines_replace_numberPattern t) numbered_eq_or_pending_lt
  | heading => exact step (lines_replace_headingPattern t) titled_eq_or_pending_lt
  | _ => exact absurd hr (by decide)

/-! ## Changes in a run -/

/-- A bound on the changes that all rules can still make, in whatever order they come. Each unit
of bracket weight pays for the change that takes it away and for two changes of every line. -/
def budget (t : Text) : ℕ :=
  weight bracketWeight t * (2 * (lines t).length + 1) + pendingLines t

theorem length_lines_apply (r : Rule) (t : Text) :
    (lines (r.apply t)).length = (lines t).length := by
  rw [length_lines, length_lines, count_lineFeed_apply]

theorem mem_bracketRules_or_lineRules (r : Rule) : r ∈ bracketRules ∨ r ∈ lineRules := by
  cases r <;> decide

theorem apply_eq_or_budget_lt (r : Rule) (t : Text) :
    r.apply t = t ∨ budget (r.apply t) < budget t := by
  unfold budget
  rw [length_lines_apply]
  rcases mem_bracketRules_or_lineRules r with hr | hr
  · rcases patterns_eq_or_weight_lt hr t with h | h
    · exact .inl (foldl_eq_self h)
    · right
      have hp : pendingLines (r.apply t) ≤ 2 * (lines t).length := by
        rw [← length_lines_apply r t]
        exact pendingLines_le _
      have hw := Nat.mul_le_mul_right (2 * (lines t).length + 1) (Nat.succ_le_of_lt h)
      rw [Nat.succ_mul] at hw
      omega
  · rw [weight_apply_of_mem_lineRules hr]
    rcases apply_eq_or_pendingLines_lt hr t with h | h
    · exact .inl h
    · exact .inr (Nat.add_lt_add_left h _)

/-- How many rules of a run change the text, each one reading what the one before it wrote. -/
def changes : List Rule → Text → ℕ
  | [], _ => 0
  | r :: rs, t => (if r.apply t = t then 0 else 1) + changes rs (r.apply t)

theorem changes_le_budget (rs : List Rule) (t : Text) : changes rs t ≤ budget t := by
  induction rs generalizing t with
  | nil => exact Nat.zero_le _
  | cons r rs ih =>
    have hrs := ih (r.apply t)
    rw [changes]
    split_ifs with h
    · rw [h] at hrs ⊢
      omega
    · have hlt := (apply_eq_or_budget_lt r t).resolve_left h
      omega

theorem budget_le (t : Text) :
    budget t ≤ (weight bracketWeight t + 1) * (2 * (lines t).length + 1) := by
  have hp := pendingLines_le t
  rw [budget, Nat.add_mul, Nat.one_mul]
  omega

/-- Rules in any order and number keep the line feeds of a text, and only so many of them change
it as its brackets, braces counted twice, and its lines allow. -/
theorem count_lineFeed_applyAll_and_changes_le (rs : List Rule) (t : Text) :
    (Rule.applyAll rs t).count '\n' = t.count '\n' ∧
    changes rs t ≤
      (2 * t.count '{' + t.count '[' + 1) * (2 * (t.count '\n' + 1) + 1) := by
  refine ⟨count_lineFeed_applyAll rs t, (changes_le_budget rs t).trans ?_⟩
  rw [← weight_bracketWeight, ← length_lines]
  exact budget_le t

/-- A heading of depth one is changed twice where headings come before list items. -/
example : changes [.heading, .numberedLists, .heading] "h1. a".toList = 2 := by cbv

end IssueMarkdown.Markup
