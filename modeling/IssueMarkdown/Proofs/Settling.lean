import IssueMarkdown.Proofs.Seam
import Mathlib.Dynamics.PeriodicPts.Defs

/-! # Conversion settles

The five rules before list markers take out more opening brackets than they write, where
a brace weighs two and a square bracket one. The last two write none, and change a line so
little that no earlier rule finds anything new in it. A text that conversion leaves alone is
therefore one that every rule leaves alone, and repeated conversion comes to such a text.
-/

namespace IssueMarkdown.Markup

open Text Pattern

variable {c : Char} {l l' m m' t t' u : Text} {p : Pattern} {r : Rule}

/-! ## Descent -/

section Descent

variable {α β : Type*} {μ : α → ℕ} {a : α}

theorem foldl_eq_self {f : α → β → α} {bs : List β} (h : ∀ b ∈ bs, f a b = a) :
    bs.foldl f a = a := by
  induction bs with
  | nil => rfl
  | cons b bs ih =>
    obtain ⟨hb, hbs⟩ := List.forall_mem_cons.mp h
    rw [List.foldl_cons, hb, ih hbs]

/-- Steps that can only descend leave a value alone together only if each of them does. -/
theorem forall_eq_or_foldl_lt {f : α → β → α} {bs : List β}
    (step : ∀ b ∈ bs, ∀ a, f a b = a ∨ μ (f a b) < μ a) (a : α) :
    (∀ b ∈ bs, f a b = a) ∨ μ (bs.foldl f a) < μ a := by
  induction bs generalizing a with
  | nil => exact .inl (by simp)
  | cons b bs ih =>
    obtain ⟨hb, hbs⟩ := List.forall_mem_cons.mp step
    rw [List.foldl_cons, List.forall_mem_cons]
    rcases hb a with he | hlt
    · rw [he]
      exact (ih hbs a).imp_left fun h => ⟨rfl, h⟩
    · right
      rcases ih hbs (f a b) with h | h
      · rwa [foldl_eq_self h]
      · exact h.trans hlt

variable {f : α → α} {k n : ℕ}

/-- Where every step descends until `k` more steps reach a fixed point, the measure and `k`
together bound the steps to one. -/
theorem isFixedPt_iterate (step : ∀ a, Function.IsFixedPt f (f^[k] a) ∨ μ (f a) < μ a) (a : α) :
    Function.IsFixedPt f (f^[μ a + k] a) := by
  induction h : μ a using Nat.strongRecOn generalizing a with
  | _ n ih =>
    rcases step a with hk | hlt
    · rw [Function.iterate_add_apply, hk.iterate n]
      exact hk
    · have hn := ih (μ (f a)) (h ▸ hlt) (f a) rfl
      obtain ⟨d, hd⟩ := Nat.exists_eq_add_of_lt (h ▸ hlt)
      rw [show n + k = d + (μ (f a) + k) + 1 by omega, Function.iterate_succ_apply,
        Function.iterate_add_apply, hn.iterate d]
      exact hn

/-- A cycle that leads to a fixed point is that point. -/
theorem isFixedPt_of_isPeriodicPt (hf : Function.IsFixedPt f (f^[n] a)) (hk : 0 < k)
    (hp : Function.IsPeriodicPt f k a) : Function.IsFixedPt f a := by
  have ha : f^[n * k] a = a := hp.const_mul n
  obtain ⟨d, hd⟩ := Nat.exists_eq_add_of_le (Nat.le_mul_of_pos_right n hk)
  rw [hd, Nat.add_comm, Function.iterate_add_apply, hf.iterate d] at ha
  rwa [ha] at hf

end Descent

/-! ## The weight of brackets -/

def bracketWeight : Char → ℕ
  | '{' => 2
  | '[' => 1
  | _ => 0

theorem weight_bracketWeight (t : Text) :
    weight bracketWeight t = 2 * t.count '{' + t.count '[' := by
  induction t with
  | nil => rfl
  | cons c t ih =>
    rw [weight_cons, ih, List.count_cons, List.count_cons]
    unfold bracketWeight
    split
    · simp
      omega
    · simp
      omega
    · rename_i h₁ h₂
      rw [if_neg (by simpa using h₁), if_neg (by simpa using h₂)]
      omega

/-- The characters that begin a mark within a line or end the line. -/
def marks : List Char := ['*', '{', '[', '\n', '\r']

def Inert (c : Char) : Prop := c ∉ marks

instance (c : Char) : Decidable (Inert c) := inferInstanceAs (Decidable (c ∉ _))

theorem Inert.isWithinLine (h : Inert c) : isWithinLine c := by
  have hc : c ≠ '\r' ∧ c ≠ '\n' := by
    constructor <;> rintro rfl <;> exact h (by decide)
  simpa [Markup.isWithinLine] using hc

theorem replace_append_of_inert (hp : p.PassesBut marks) (hu : ∀ c ∈ u, Inert c) (hn : u ≠ [])
    (t : Text) : p.replace (u ++ t) = u ++ p.replaceFrom false t := by
  rw [replace, replaceFrom_append_of_passes fun c hc => hp (hu c hc),
    List.isEmpty_eq_false_iff.mpr hn, Bool.and_false]

theorem weight_of_inert (hu : ∀ c ∈ u, Inert c) : weight bracketWeight u = 0 := by
  have hb : ∀ {x}, x ∈ marks → x ∉ u := fun hx hm => hu _ hm hx
  rw [weight_bracketWeight, List.count_eq_zero.mpr (hb (by decide)),
    List.count_eq_zero.mpr (hb (by decide))]

theorem weight_pos_of_mem (h : '{' ∈ t ∨ '[' ∈ t) : 0 < weight bracketWeight t := by
  rw [weight_bracketWeight]
  rcases h with h | h
  · have := List.count_pos_iff.mpr h
    omega
  · have := List.count_pos_iff.mpr h
    omega

/-! ## Rules that look for brackets -/

def bracketRules : List Rule := [.status, .stripLinks, .quotes, .panel, .code]

/-- Every hit of such a rule has one of three characters in it, and weighs more than what is
written for it. -/
theorem exists_turns (hr : r ∈ bracketRules) (hp : p ∈ r.patterns) : ∃ R, p.Turns R ∧
    ∀ u v, R u v → (∃ c ∈ ['{', '|', '~'], c ∈ u) ∧
      weight bracketWeight v < weight bracketWeight u := by
  have brace : ∀ {u : Text}, '{' ∈ u → ∃ c ∈ ['{', '|', '~'], c ∈ u := fun h => ⟨'{', by simp, h⟩
  cases r with
  | status =>
    obtain rfl := List.mem_singleton.mp hp
    refine ⟨_, colourPattern_turns, ?_⟩
    rintro u v ⟨rfl, a, m, b, -, hm, -, rfl⟩
    obtain ⟨d, w, rfl, -⟩ := hm.eq_brace_cons
    exact ⟨brace (by simp), weight_pos_of_mem (.inl (by simp))⟩
  | stripLinks =>
    obtain rfl := List.mem_singleton.mp hp
    refine ⟨_, linkPattern_turns, ?_⟩
    rintro u v ⟨rfl, _ | _⟩
    · exact ⟨⟨'|', by simp, by simp⟩, weight_pos_of_mem (.inr (by simp))⟩
    · exact ⟨⟨'~', by simp, by simp [mentionLead]⟩,
        weight_pos_of_mem (.inr (by simp [mentionLead]))⟩
  | quotes =>
    rcases List.mem_pair.mp hp with rfl | rfl
    · refine ⟨_, quoteOpenPattern_turns, ?_⟩
      rintro u v ⟨rfl, rfl⟩
      exact ⟨brace (by decide), by decide⟩
    · refine ⟨_, quoteClosePattern_turns, ?_⟩
      rintro u v ⟨rfl, rfl⟩
      exact ⟨brace (by decide), by decide⟩
  | panel =>
    rcases List.mem_pair.mp hp with rfl | rfl
    · refine ⟨_, panelOpenPattern_turns, ?_⟩
      rintro u v ⟨rfl, hm⟩
      obtain ⟨d, w, rfl, -⟩ := hm.eq_brace_cons
      exact ⟨brace (by simp), weight_pos_of_mem (.inl (by simp))⟩
    · -- the closer takes a brace away, and the note brings one square bracket
      refine ⟨_, panelClosePattern_turns, ?_⟩
      rintro u v ⟨c, br, rfl, rfl⟩
      have hc : weight bracketWeight panelCloser = 2 := rfl
      have hn : weight bracketWeight noteHead = 1 := rfl
      have hs : weight bracketWeight ['>', ' '] = 0 := rfl
      refine ⟨brace (by simp [panelCloser]), ?_⟩
      simp only [weight_append]
      omega
  | code =>
    obtain rfl := List.mem_singleton.mp hp
    refine ⟨_, codePattern_turns, ?_⟩
    rintro u v ⟨s, -, -, rfl, rfl⟩
    have hb : bracketWeight '{' = 2 := rfl
    have hq : bracketWeight '`' = 0 := rfl
    have he : bracketWeight '}' = 0 := rfl
    refine ⟨brace (by simp), ?_⟩
    simp only [weight_cons, weight_append, weight_nil]
    omega
  | numberedLists => exact absurd hr (by decide)
  | heading => exact absurd hr (by decide)

theorem replace_eq_or_weight_lt (hr : r ∈ bracketRules) (hp : p ∈ r.patterns) (t : Text) :
    p.replace t = t ∨ weight bracketWeight (p.replace t) < weight bracketWeight t := by
  obtain ⟨R, hR, h⟩ := exists_turns hr hp
  exact hR.replaceFrom_eq_or_weight_lt (fun u v huv => (h u v huv).2) true t

/-- Every rule that looks for brackets leaves the text alone. -/
def Settled (t : Text) : Prop := ∀ r ∈ bracketRules, r.apply t = t

theorem patterns_eq_or_weight_lt (hr : r ∈ bracketRules) (t : Text) :
    (∀ p ∈ r.patterns, p.replace t = t) ∨
      weight bracketWeight (r.apply t) < weight bracketWeight t :=
  forall_eq_or_foldl_lt (fun _ hp t => replace_eq_or_weight_lt hr hp t) t

theorem settled_iff : Settled t ↔ ∀ r ∈ bracketRules, ∀ p ∈ r.patterns, p.replace t = t := by
  constructor
  · intro h r hr
    rcases patterns_eq_or_weight_lt hr t with hp | hlt
    · exact hp
    · rw [h r hr] at hlt
      exact absurd hlt (Nat.lt_irrefl _)
  · exact fun h r hr => foldl_eq_self (h r hr)

theorem settled_or_weight_lt (t : Text) :
    Settled t ∨ weight bracketWeight (Rule.applyAll bracketRules t) < weight bracketWeight t :=
  forall_eq_or_foldl_lt
    (fun _ hr t => (patterns_eq_or_weight_lt hr t).imp_left foldl_eq_self) t

theorem settled_of_notMem (ht : ∀ c ∈ ['{', '|', '~'], c ∉ t) : Settled t := by
  rw [settled_iff]
  intro r hr p hp
  obtain ⟨R, hR, h⟩ := exists_turns hr hp
  exact hR.replaceFrom_of_notMem (fun u v huv => (h u v huv).1) true ht

theorem Settled.panelReady_eq (h : Settled t) : panelReady t = t := by
  have first : ∀ r ∈ [Rule.status, .stripLinks, .quotes], r ∈ bracketRules := by decide
  have ready : Rule.applyAll [.status, .stripLinks, .quotes] t = t :=
    foldl_eq_self fun r hr => h r (first r hr)
  rw [panelReady, ready]
  exact settled_iff.mp h .panel (by decide) panelOpenPattern List.mem_cons_self

/-! ## Rules that look at how lines begin -/

def lineRules : List Rule := [.numberedLists, .heading]

theorem convert_eq_applyAll (t : Text) :
    convert t = Rule.applyAll lineRules (Rule.applyAll bracketRules t) :=
  rfl

theorem inert_of_isHeadingBlank (h : isHeadingBlank c) : Inert c := by
  rcases (by simpa [isHeadingBlank] using h : c = ' ' ∨ c = '\t') with rfl | rfl <;> decide

theorem notMem_of_depth {s : List Char} (hs : ∀ x ∈ s, x < '1' ∨ '6' < x) {d : Char}
    (h₁ : '1' ≤ d) (h₂ : d ≤ '6') : d ∉ s := by
  intro hd
  rcases hs d hd with h | h
  · exact Char.not_lt.mpr h₁ h
  · exact Char.not_lt.mpr h₂ h

theorem inert_of_depth {d : Char} (h₁ : '1' ≤ d) (h₂ : d ≤ '6') : Inert d :=
  notMem_of_depth (by decide) h₁ h₂

theorem inert_headingMarker {d : Char} (h₁ : '1' ≤ d) (h₂ : d ≤ '6') {b : Text}
    (hb : ∀ c ∈ b, isHeadingBlank c) : ∀ c ∈ 'h' :: d :: '.' :: b, Inert c := by
  simp only [List.forall_mem_cons]
  exact ⟨by decide, inert_of_depth h₁ h₂, by decide, fun c hc => inert_of_isHeadingBlank (hb c hc)⟩

theorem inert_headingOut (n : ℕ) : ∀ c ∈ List.replicate n '#' ++ [' '], Inert c := by
  intro c hc
  rcases List.mem_append.mp hc with hc | hc
  · rw [List.eq_of_mem_replicate hc]
    decide
  · rw [List.mem_singleton.mp hc]
    decide

theorem weight_apply_of_mem_lineRules (hr : r ∈ lineRules) (t : Text) :
    weight bracketWeight (r.apply t) = weight bracketWeight t := by
  cases r with
  | numberedLists =>
    refine numberPattern_turns.weight_replaceFrom ?_ true t
    rintro u v ⟨rfl, rfl⟩
    rfl
  | heading =>
    refine headingPattern_turns.weight_replaceFrom ?_ true t
    rintro u v ⟨d, b, h₁, h₂, hb, rfl, rfl⟩
    rw [weight_of_inert (inert_headingMarker h₁ h₂ hb), weight_of_inert (inert_headingOut _)]
  | _ => exact absurd hr (by decide)

theorem weight_applyAll_lineRules (t : Text) :
    weight bracketWeight (Rule.applyAll lineRules t) = weight bracketWeight t :=
  (weight_apply_of_mem_lineRules (r := .heading) (by decide) _).trans
    (weight_apply_of_mem_lineRules (r := .numberedLists) (by decide) t)

theorem settled_or_weight_convert_lt (t : Text) :
    Settled t ∨ weight bracketWeight (convert t) < weight bracketWeight t := by
  rw [convert_eq_applyAll, weight_applyAll_lineRules]
  exact settled_or_weight_lt t

theorem Settled.convert_eq (h : Settled t) : convert t = Rule.applyAll lineRules t := by
  rw [convert_eq_applyAll]
  exact congrArg _ (foldl_eq_self h)

theorem Settled.lines_convert (h : Settled t) :
    lines (convert t) = (lines t).map (titled ∘ numbered) := by
  rw [h.convert_eq, ← List.map_map, ← lines_replace_numberPattern, ← lines_replace_headingPattern]
  rfl

theorem Settled.convert_line (h : Settled l) (hl : '\n' ∉ l) : convert l = titled (numbered l) := by
  rw [← unlines_lines (convert l), h.lines_convert, lines_of_notMem hl]
  exact unlines_singleton _

/-- A line is the same as another but for an inert beginning of both. -/
inductive Relabelled : Text → Text → Prop where
  | same (l : Text) : Relabelled l l
  | begun {u v : Text} (r : Text) (hu : u ≠ []) (hv : v ≠ []) (inert_u : ∀ c ∈ u, Inert c)
      (inert_v : ∀ c ∈ v, Inert c) : Relabelled (u ++ r) (v ++ r)

theorem relabelled_titled_numbered (l : Text) : Relabelled l (titled (numbered l)) := by
  rcases line_cases l with ⟨r, rfl⟩ | ⟨d, s, h₁, h₂, rfl⟩ | ⟨hn, ht⟩
  · exact .begun (u := ['#', ' ']) (v := ['1', '.', ' ']) r (by simp) (by simp) (by decide)
      (by decide)
  · have hl : 'h' :: d :: '.' :: s =
        'h' :: d :: '.' :: s.takeWhile isHeadingBlank ++ s.dropWhile isHeadingBlank := by simp
    rw [numbered_heading, titled_heading h₁ h₂, hl, List.append_cons]
    exact .begun _ (by simp) (by simp)
      (inert_headingMarker h₁ h₂ fun c hc => List.mem_takeWhile_imp hc) (inert_headingOut _)
  · rw [hn, ht]
    exact .same l

namespace Relabelled

theorem replace_eq_self (h : Relabelled l l') (hp : p.PassesBut marks)
    (hl : p.replace l = l) : p.replace l' = l' := by
  cases h with
  | same => exact hl
  | @begun u v r hu hv iu iv =>
    rw [replace_append_of_inert hp iu hu] at hl
    rw [replace_append_of_inert hp iv hv, List.append_cancel_left hl]

theorem noteBody?_eq_none (h : Relabelled l l') (hl : noteBody? l = none) :
    noteBody? l' = none := by
  cases h with
  | same => exact hl
  | @begun u v r hu hv iu iv =>
    rw [noteBody?_append hu fun c hc => (iu c hc).isWithinLine, Option.map_eq_none_iff] at hl
    rw [noteBody?_append hv fun c hc => (iv c hc).isWithinLine, hl]
    rfl

theorem after?_panelCloser_eq_none (h : Relabelled m m') (hm : after? panelCloser m = none) :
    after? panelCloser m' = none := by
  cases h with
  | same => exact hm
  | @begun u v r hu hv iu iv =>
    rw [after?_eq_none_iff]
    rintro ⟨s, hs⟩
    obtain ⟨c, v, rfl⟩ := List.exists_cons_of_ne_nil hv
    obtain rfl : '{' = c := (List.cons.inj hs).1
    exact iv '{' (by simp) (by decide)

theorem noNote (hl : Relabelled l l') (hm : Relabelled m m') (h : NoNote l m) : NoNote l' m' :=
  h.imp hl.noteBody?_eq_none hm.after?_panelCloser_eq_none

end Relabelled

section Relabelling

variable {f : Text → Text}

theorem replace_eq_self_of_relabelled (hf : ∀ l, Relabelled l (f l))
    (ht : lines t' = (lines t).map f) (hp : p.LineLocal) (hi : p.PassesBut marks)
    (h : p.replace t = t) : p.replace t' = t' := by
  rw [hp.replace_eq_self_iff] at h ⊢
  rw [ht, List.forall_mem_map]
  exact fun l hl => (hf l).replace_eq_self hi (h l hl)

theorem panelClosePattern_eq_self_of_relabelled (hf : ∀ l, Relabelled l (f l))
    (ht : lines t' = (lines t).map f) (h : panelClosePattern.replace t = t) :
    panelClosePattern.replace t' = t' := by
  rw [replace_panelClosePattern_eq_self_iff] at h ⊢
  rw [ht]
  exact List.isChain_map_of_isChain f (fun l m => (hf l).noNote (hf m)) h

end Relabelling

/-- Only the closers of panels look across a line break. -/
theorem eq_panelClosePattern_or_local (hr : r ∈ bracketRules) (hp : p ∈ r.patterns) :
    p = panelClosePattern ∨ (p.LineLocal ∧ p.PassesBut marks) := by
  cases r with
  | status =>
    obtain rfl := List.mem_singleton.mp hp
    exact .inr ⟨lineLocal_colourPattern, passes_colourPattern.mono (by decide)⟩
  | stripLinks =>
    obtain rfl := List.mem_singleton.mp hp
    exact .inr ⟨lineLocal_linkPattern, passes_linkPattern.mono (by decide)⟩
  | quotes =>
    rcases List.mem_pair.mp hp with rfl | rfl
    · exact .inr ⟨lineLocal_quoteOpenPattern, passes_quoteOpenPattern.mono (by decide)⟩
    · exact .inr ⟨lineLocal_quoteClosePattern, passes_quoteClosePattern.mono (by decide)⟩
  | panel =>
    rcases List.mem_pair.mp hp with rfl | rfl
    · exact .inr ⟨lineLocal_panelOpenPattern, passes_panelOpenPattern.mono (by decide)⟩
    · exact .inl rfl
  | code =>
    obtain rfl := List.mem_singleton.mp hp
    exact .inr ⟨lineLocal_codePattern, passes_codePattern.mono (by decide)⟩
  | numberedLists => exact absurd hr (by decide)
  | heading => exact absurd hr (by decide)

theorem Settled.of_relabelled {f : Text → Text} (hf : ∀ l, Relabelled l (f l))
    (ht : lines t' = (lines t).map f) (h : Settled t) : Settled t' := by
  rw [settled_iff] at h ⊢
  intro r hr p hp
  rcases eq_panelClosePattern_or_local hr hp with rfl | ⟨hl, hi⟩
  · exact panelClosePattern_eq_self_of_relabelled hf ht (h r hr _ hp)
  · exact replace_eq_self_of_relabelled hf ht hl hi (h r hr p hp)

theorem settled_convert (h : Settled t) : Settled (convert t) :=
  h.of_relabelled relabelled_titled_numbered h.lines_convert

/-! ## Fixed points -/

/-- On a settled text two more conversions are enough. -/
theorem Settled.isFixedPt_convert (h : Settled t) :
    Function.IsFixedPt convert (convert^[2] t) := by
  apply lines_injective
  show lines (convert (convert (convert t))) = lines (convert (convert t))
  rw [(settled_convert (settled_convert h)).lines_convert,
    (settled_convert h).lines_convert, h.lines_convert]
  simp only [List.map_map]
  exact List.map_congr_left fun l _ => titled_numbered_settles l

theorem isFixedPt_iterate_convert (t : Text) : Function.IsFixedPt convert
    (convert^[2 * t.count '{' + t.count '[' + 2] t) := by
  rw [← weight_bracketWeight]
  refine isFixedPt_iterate (fun t => ?_) t
  exact (settled_or_weight_convert_lt t).imp_left Settled.isFixedPt_convert

/-- Repeated conversion comes to a fixed point, within as many steps as the text has brackets,
braces counted twice, and two more; it never runs in a cycle. -/
theorem convert_iterate_settles (t : Text) :
    convert^[2 * t.count '{' + t.count '[' + 2] t =
      convert^[2 * t.count '{' + t.count '[' + 3] t ∧
    ∀ n, 0 < n → convert^[n] t = t → convert t = t := by
  have hf := isFixedPt_iterate_convert t
  refine ⟨?_, fun n hn hp => isFixedPt_of_isPeriodicPt hf hn hp⟩
  rw [Function.iterate_succ_apply' convert (2 * t.count '{' + t.count '[' + 2)]
  exact hf.symm

theorem Settled.apply_eq_self (hs : Settled t)
    (hl : ∀ l ∈ lines t, numbered l = l ∧ titled l = l) (r : Rule) : r.apply t = t := by
  have hn : numberPattern.replace t = t := lineLocal_numberPattern.replace_eq_self_iff t |>.mpr
    fun l hm => (replace_numberPattern (notMem_of_mem_lines hm)).trans (hl l hm).1
  have hh : headingPattern.replace t = t := lineLocal_headingPattern.replace_eq_self_iff t |>.mpr
    fun l hm => (replace_headingPattern (notMem_of_mem_lines hm)).trans (hl l hm).2
  cases r with
  | numberedLists => exact hn
  | heading => exact hh
  | _ => exact hs _ (by decide)

/-- Conversion leaves a text alone exactly if every rule does: changes never cancel out. -/
theorem convert_eq_self_iff (t : Text) : convert t = t ↔ ∀ r ∈ Rule.standard, r.apply t = t := by
  constructor
  · intro he
    have hs : Settled t := by
      rcases settled_or_weight_convert_lt t with hs | hlt
      · exact hs
      · rw [he] at hlt
        exact absurd hlt (Nat.lt_irrefl _)
    have hl : ∀ l ∈ lines t, numbered l = l ∧ titled l = l := by
      have hm := hs.lines_convert
      rw [he] at hm
      have hi := List.map_inj_left.mp (hm.symm.trans (List.map_id _).symm)
      exact fun l hl => titled_numbered_eq_self_iff.mp (hi l hl)
    exact fun r _ => hs.apply_eq_self hl r
  · exact fun h => foldl_eq_self h

end IssueMarkdown.Markup
