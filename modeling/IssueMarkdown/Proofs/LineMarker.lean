import IssueMarkdown.Markup.Rule
import IssueMarkdown.Proofs.Lines

/-! # List and heading markers

Both stand where a line starts and both leave the rest of their line as it is, so each
replacement changes a line at most once and a line of neither kind not at all. Together the two
rules read every line by itself, and their order shows only on a heading of depth one.
-/

namespace IssueMarkdown.Markup

open Text Pattern

variable {l t r : Text} {n : ℕ} {x : Char}

theorem numberPattern_turns :
    numberPattern.Turns fun u v => u = ['#', ' '] ∧ v = ['1', '.', ' '] := by
  intro start t h hit
  cases start with
  | false => simp [numberPattern] at hit
  | true =>
    obtain ⟨r, hr, rfl⟩ := Option.map_eq_some_iff.mp hit
    exact ⟨_, after?_eq_some_iff.mp hr, rfl, rfl⟩

theorem atLineStart_numberPattern : numberPattern.AtLineStart := fun _ => rfl

theorem lineLocal_numberPattern : numberPattern.LineLocal where
  breaksLine := rfl
  find?_append := find?_append_of_stopsAt_start (fun _ _ => rfl) (stopsAt_after? (by decide))
  count_replace := numberPattern_turns.count_replaceFrom fun u v h => by
    obtain ⟨rfl, rfl⟩ := h
    decide

/-- The blanks that a heading marker takes with it. -/
def isHeadingBlank (c : Char) : Bool := c == ' ' || c == '\t'

/-- The depth that a digit writes. -/
def depth (d : Char) : ℕ := d.toNat - '0'.toNat

theorem one_le_depth {d : Char} (h : '1' ≤ d) : 1 ≤ depth d := by
  have : '1'.toNat ≤ d.toNat := h
  have h₁ : '1'.toNat = 49 := rfl
  have h₀ : '0'.toNat = 48 := rfl
  unfold depth
  omega

theorem heading?_eq_some_iff : heading? t = some (n, r) ↔ ∃ d s, '1' ≤ d ∧ d ≤ '6' ∧ n = depth d ∧
    r = s.dropWhile isHeadingBlank ∧ t = 'h' :: d :: '.' :: s := by
  unfold heading?
  split
  · rename_i d s
    simp only [Option.ite_none_right_eq_some, Option.some.injEq, Prod.mk.injEq]
    constructor
    · rintro ⟨⟨h₁, h₂⟩, rfl, rfl⟩
      exact ⟨d, s, h₁, h₂, rfl, rfl, rfl⟩
    · rintro ⟨d', s', h₁, h₂, rfl, rfl, he⟩
      obtain ⟨rfl, rfl⟩ : d = d' ∧ s = s' := by simpa using he
      exact ⟨⟨h₁, h₂⟩, rfl, rfl⟩
  · rename_i hn
    simp only [reduceCtorEq, false_iff]
    rintro ⟨d, s, -, -, -, -, rfl⟩
    exact hn d s rfl

theorem headingPattern_turns : headingPattern.Turns fun u v => ∃ d b, '1' ≤ d ∧ d ≤ '6' ∧
    (∀ c ∈ b, isHeadingBlank c) ∧ u = 'h' :: d :: '.' :: b ∧
      v = List.replicate (depth d) '#' ++ [' '] := by
  intro start t h hit
  cases start with
  | false => simp [headingPattern] at hit
  | true =>
    obtain ⟨⟨n, r⟩, hr, rfl⟩ := Option.map_eq_some_iff.mp hit
    obtain ⟨d, s, h₁, h₂, rfl, rfl, rfl⟩ := heading?_eq_some_iff.mp hr
    refine ⟨'h' :: d :: '.' :: s.takeWhile isHeadingBlank, ?_, d, _, h₁, h₂, ?_, rfl, rfl⟩
    · simp
    · exact fun c hc => List.mem_takeWhile_imp hc

theorem atLineStart_headingPattern : headingPattern.AtLineStart := fun _ => rfl

theorem heading?_append_lineEnd (hx : x = '\n' ∨ x = '\r') (s t : Text) :
    heading? (s ++ x :: t) = (heading? s).map fun (n, r) => (n, r ++ x :: t) := by
  have hb : isHeadingBlank x = false := by rcases hx with rfl | rfl <;> decide
  rcases s with _ | ⟨a, _ | ⟨d, _ | ⟨b, s⟩⟩⟩
  · rcases hx with rfl | rfl <;> rfl
  · -- a line end is no digit, whatever follows it
    have miss : heading? (a :: x :: t) = none := by
      by_contra hn
      obtain ⟨⟨n, r⟩, hr⟩ := Option.ne_none_iff_exists'.mp hn
      obtain ⟨d, s, hd, -, -, -, he⟩ := heading?_eq_some_iff.mp hr
      obtain ⟨-, rfl, -⟩ : a = 'h' ∧ x = d ∧ t = '.' :: s := by simpa using he
      rcases hx with rfl | rfl <;> exact absurd hd (by decide)
    simpa [heading?] using miss
  · rcases hx with rfl | rfl <;> simp [heading?]
  · by_cases h : a = 'h' ∧ b = '.'
    · obtain ⟨rfl, rfl⟩ := h
      have hs : (s ++ x :: t).dropWhile isHeadingBlank =
          s.dropWhile isHeadingBlank ++ x :: t := dropWhile_append_cons hb s t
      show (if _ then some (depth d, (s ++ x :: t).dropWhile isHeadingBlank) else none) =
        (if _ then some (depth d, s.dropWhile isHeadingBlank) else none).map _
      rw [hs]
      split <;> rfl
    · have miss : ∀ u, heading? (a :: d :: b :: u) = none := by
        intro u
        unfold heading?
        split
        · rename_i he
          simp_all
        · rfl
      rw [List.cons_append, List.cons_append, List.cons_append, miss, miss, Option.map_none]

theorem ignores_headingPattern (hx : x = '\n' ∨ x = '\r') (t : Text) :
    headingPattern.Ignores (x :: t) := by
  intro start s
  cases start with
  | false => rfl
  | true =>
    show (heading? _).map _ = ((heading? _).map _).map _
    rw [heading?_append_lineEnd hx, Option.map_map, Option.map_map]
    rfl

theorem lineLocal_headingPattern : headingPattern.LineLocal where
  breaksLine := rfl
  find?_append start s t := ignores_headingPattern (.inl rfl) t start s
  count_replace := headingPattern_turns.count_replaceFrom fun u v h => by
    obtain ⟨d, b, h₁, -, hb, rfl, rfl⟩ := h
    have hbl : '\n' ∉ b := fun hm => absurd (hb _ hm) (by decide)
    have hd : '\n' ≠ d := fun he => absurd (he ▸ h₁) (by decide)
    rw [List.count_eq_zero.mpr, List.count_eq_zero.mpr]
    · simp [hd, hbl]
    · simp

/-! ## Lines -/

/-- A line that begins as a list item, numbered. -/
def numbered (l : Text) : Text := (after? ['#', ' '] l).elim l (['1', '.', ' '] ++ ·)

/-- A line that begins with a heading marker, as a heading. -/
def titled (l : Text) : Text :=
  (heading? l).elim l fun (n, r) => List.replicate n '#' ++ ' ' :: r

theorem numbered_of_after?_eq_none (h : after? ['#', ' '] l = none) : numbered l = l := by
  rw [numbered, h]
  rfl

theorem titled_of_heading?_eq_none (h : heading? l = none) : titled l = l := by
  rw [titled, h]
  rfl

theorem replace_numberPattern (hl : '\n' ∉ l) : numberPattern.replace l = numbered l := by
  cases hr : after? ['#', ' '] l with
  | none =>
    rw [numbered_of_after?_eq_none hr]
    refine atLineStart_numberPattern.replace_of_miss ?_ (isLineFeed_eq_false hl)
    simp [numberPattern, hr]
  | some r =>
    obtain rfl := after?_eq_some_iff.mp hr
    have hrl : '\n' ∉ r := fun hm => hl (List.mem_append_right _ hm)
    exact atLineStart_numberPattern.replace_of_hit (h := ⟨['1', '.', ' '], r⟩) rfl
      (isLineFeed_eq_false hrl)

theorem replace_headingPattern (hl : '\n' ∉ l) : headingPattern.replace l = titled l := by
  cases hh : heading? l with
  | none =>
    rw [titled_of_heading?_eq_none hh]
    refine atLineStart_headingPattern.replace_of_miss ?_ (isLineFeed_eq_false hl)
    simp [headingPattern, hh]
  | some x =>
    obtain ⟨n, r⟩ := x
    have found : headingPattern.find? true l = some ⟨List.replicate n '#' ++ [' '], r⟩ := by
      simp [headingPattern, hh]
    obtain ⟨d, s, -, -, -, rfl, rfl⟩ := heading?_eq_some_iff.mp hh
    have hr : '\n' ∉ s.dropWhile isHeadingBlank := fun hm =>
      hl (List.mem_cons_of_mem _ (List.mem_cons_of_mem _
        (List.mem_cons_of_mem _ ((List.dropWhile_suffix _).mem hm))))
    rw [atLineStart_headingPattern.replace_of_hit found (isLineFeed_eq_false hr), titled, hh]
    simp

theorem lines_replace_numberPattern (t : Text) :
    lines (numberPattern.replace t) = (lines t).map numbered := by
  rw [lineLocal_numberPattern.lines_replace]
  exact List.map_congr_left fun l hl => replace_numberPattern (notMem_of_mem_lines hl)

theorem lines_replace_headingPattern (t : Text) :
    lines (headingPattern.replace t) = (lines t).map titled := by
  rw [lineLocal_headingPattern.lines_replace]
  exact List.map_congr_left fun l hl => replace_headingPattern (notMem_of_mem_lines hl)

/-- What the two rules make of a line: a list item, a heading, or the line itself. -/
theorem line_cases (l : Text) : (∃ r, l = '#' :: ' ' :: r) ∨
    (∃ d s, '1' ≤ d ∧ d ≤ '6' ∧ l = 'h' :: d :: '.' :: s) ∨ (numbered l = l ∧ titled l = l) := by
  cases hn : after? ['#', ' '] l with
  | some r => exact .inl ⟨r, after?_eq_some_iff.mp hn⟩
  | none =>
    cases hh : heading? l with
    | some x =>
      obtain ⟨d, s, h₁, h₂, -, -, rfl⟩ := heading?_eq_some_iff.mp hh
      exact .inr (.inl ⟨d, s, h₁, h₂, rfl⟩)
    | none => exact .inr (.inr ⟨numbered_of_after?_eq_none hn, titled_of_heading?_eq_none hh⟩)

theorem numbered_of_notMem (h : '#' ∉ l) : numbered l = l := by
  refine numbered_of_after?_eq_none (after?_eq_none_iff.mpr ?_)
  rintro ⟨s, rfl⟩
  simp at h

theorem titled_of_notMem (h : '.' ∉ l) : titled l = l := by
  rcases line_cases l with ⟨s, rfl⟩ | ⟨d, s, -, -, rfl⟩ | ⟨-, ht⟩
  · rfl
  · simp at h
  · exact ht

theorem titled_numbered_item (r : Text) :
    titled (numbered ('#' :: ' ' :: r)) = '1' :: '.' :: ' ' :: r := rfl

theorem numbered_heading (d : Char) (s : Text) :
    numbered ('h' :: d :: '.' :: s) = 'h' :: d :: '.' :: s := rfl

theorem titled_heading {d : Char} (h₁ : '1' ≤ d) (h₂ : d ≤ '6') (s : Text) :
    titled ('h' :: d :: '.' :: s) =
      List.replicate (depth d) '#' ++ ' ' :: s.dropWhile isHeadingBlank := by
  rw [titled, heading?_eq_some_iff.mpr ⟨d, s, h₁, h₂, rfl, rfl, rfl⟩]
  rfl

theorem replicate_depth {d : Char} (h : '1' ≤ d) :
    List.replicate (depth d) '#' = '#' :: List.replicate (depth d - 1) '#' := by
  rw [← List.replicate_succ, Nat.sub_add_cancel (one_le_depth h)]

/-- A line that both rules together leave alone is left alone by each. -/
theorem titled_numbered_eq_self_iff : titled (numbered l) = l ↔ numbered l = l ∧ titled l = l := by
  constructor
  · intro he
    rcases line_cases l with ⟨r, rfl⟩ | ⟨d, s, h₁, h₂, rfl⟩ | h
    · rw [titled_numbered_item] at he
      simp at he
    · rw [numbered_heading, titled_heading h₁ h₂, replicate_depth h₁] at he
      simp at he
    · exact h
  · rintro ⟨hn, ht⟩
    rw [hn, ht]

/-- The two rules change a line twice at most: a heading of depth one becomes a list item. -/
theorem titled_numbered_settles (l : Text) : titled (numbered (titled (numbered
    (titled (numbered l))))) = titled (numbered (titled (numbered l))) := by
  rcases line_cases l with ⟨r, rfl⟩ | ⟨d, s, h₁, h₂, rfl⟩ | ⟨hn, ht⟩
  · rfl
  · rw [numbered_heading, titled_heading h₁ h₂, replicate_depth h₁]
    cases depth d - 1 <;> rfl
  · simp only [hn, ht]

/-! ## Both rules -/

/-- A line after both rules: a list item gets a number, a heading marker becomes as many hash
signs as its digit says and one space, and every other line stays as it is. -/
def itemOrHeading : Text → Text
  | '#' :: ' ' :: r => '1' :: '.' :: ' ' :: r
  | 'h' :: d :: '.' :: r =>
    if '1' ≤ d ∧ d ≤ '6' then List.replicate (depth d) '#' ++ ' ' :: r.dropWhile isHeadingBlank
    else 'h' :: d :: '.' :: r
  | l => l

theorem titled_numbered_eq (l : Text) : titled (numbered l) = itemOrHeading l := by
  fun_cases itemOrHeading l with
  | case1 r => exact titled_numbered_item r
  | case2 d r h => rw [numbered_heading, titled_heading h.1 h.2]
  | case3 d r h =>
    rw [numbered_heading]
    refine titled_of_heading?_eq_none ?_
    simp only [heading?, if_neg h]
  | case4 l hi hh =>
    rcases line_cases l with ⟨r, rfl⟩ | ⟨d, r, -, -, rfl⟩ | ⟨hn, ht⟩
    · exact (hi r rfl).elim
    · exact (hh d r rfl).elim
    · rw [hn, ht]

theorem two_le_depth {d : Char} (h : '1' ≤ d) (hd : d ≠ '1') : 2 ≤ depth d := by
  have h₁ : '1'.toNat ≤ d.toNat := h
  have hn : d.toNat ≠ '1'.toNat := fun he => hd (Char.toNat_inj.mp he)
  have h₀ : '0'.toNat = 48 := rfl
  have h₂ : '1'.toNat = 49 := rfl
  unfold depth
  omega

/-- Only a heading of depth one becomes something that the other rule reads. -/
theorem numbered_titled_eq_iff (l : Text) :
    numbered (titled l) = titled (numbered l) ↔ ¬ ['h', '1', '.'] <+: l := by
  rcases line_cases l with ⟨r, rfl⟩ | ⟨d, s, h₁, h₆, rfl⟩ | ⟨hn, ht⟩
  · simp only [List.cons_prefix_cons]
    exact iff_of_true rfl (by simp)
  · rw [numbered_heading, titled_heading h₁ h₆]
    by_cases hd : d = '1'
    · subst hd
      refine iff_of_false (fun he => ?_) (not_not.mpr ⟨s, rfl⟩)
      exact absurd (List.cons.inj he).1 (by decide)
    · obtain ⟨k, hk⟩ := Nat.exists_eq_add_of_le' (two_le_depth h₁ hd)
      rw [hk]
      refine iff_of_true rfl fun hp => hd ?_
      exact (List.cons_prefix_cons.mp (List.cons_prefix_cons.mp hp).2).1.symm
  · rw [hn, ht]
    refine iff_of_true hn ?_
    rintro ⟨s, rfl⟩
    exact absurd (List.cons.inj ht).1 (by decide)

/-- Lists and then headings read every line by itself. In the other order they do the same unless
a heading of depth one is there, which the second rule would take for a list item. -/
theorem applyAll_numberedLists_heading (t : Text) :
    Rule.applyAll [.numberedLists, .heading] t = unlines ((lines t).map itemOrHeading) ∧
    (Rule.applyAll [.heading, .numberedLists] t = Rule.applyAll [.numberedLists, .heading] t ↔
      ∀ l ∈ lines t, ¬ ['h', '1', '.'] <+: l) := by
  have inOrder : lines (Rule.applyAll [.numberedLists, .heading] t) =
      (lines t).map fun l => titled (numbered l) := by
    show lines (headingPattern.replace (numberPattern.replace t)) = _
    rw [lines_replace_headingPattern, lines_replace_numberPattern, List.map_map]
    rfl
  have reversed : lines (Rule.applyAll [.heading, .numberedLists] t) =
      (lines t).map fun l => numbered (titled l) := by
    show lines (numberPattern.replace (headingPattern.replace t)) = _
    rw [lines_replace_numberPattern, lines_replace_headingPattern, List.map_map]
    rfl
  constructor
  · rw [← unlines_lines (Rule.applyAll _ t), inOrder]
    simp only [titled_numbered_eq]
  · rw [← lines_injective.eq_iff, inOrder, reversed, List.map_inj_left]
    simp only [numbered_titled_eq_iff]

end IssueMarkdown.Markup
