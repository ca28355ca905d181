import IssueMarkdown.Markup.Rule
import IssueMarkdown.Proofs.Lines
import Mathlib.Data.Nat.Find

/-! # Code spans

A span goes from two opening braces to the nearest two closing braces of its line.
-/

namespace IssueMarkdown.Markup

open Text Pattern

variable {c : Char} {s t r : Text}

theorem spanEnd?_sound (h : spanEnd? t = some (s, r)) :
    t = s ++ '}' :: '}' :: r ∧ '\n' ∉ s := by
  fun_induction spanEnd? t generalizing s with
  | case1 => simp at h
  | case2 t =>
    obtain ⟨rfl, rfl⟩ := Prod.mk.inj (Option.some.inj h)
    simp
  | case3 => simp at h
  | case4 c t hc hn ih =>
    obtain ⟨⟨s', r'⟩, hs, he⟩ := Option.map_eq_some_iff.mp h
    obtain ⟨rfl, rfl⟩ := Prod.mk.inj he
    obtain ⟨rfl, hs'⟩ := ih hs
    exact ⟨rfl, by simp [hs', eq_comm, hn]⟩

theorem spanEnd?_append (hb : '}' ∉ s) (hl : '\n' ∉ s) (r : Text) :
    spanEnd? (s ++ '}' :: '}' :: r) = some (s, r) := by
  induction s with
  | nil => rfl
  | cons c s ih =>
    simp only [List.mem_cons, not_or] at hb hl
    rw [List.cons_append, spanEnd?, if_neg (Ne.symm hl.1), ih hb.2 hl.2]
    · rfl
    · rintro t rfl -
      exact hb.1 rfl

theorem codeSpan?_sound (h : codeSpan? t = some (s, r)) :
    t = '{' :: '{' :: (s ++ '}' :: '}' :: r) ∧ s ≠ [] ∧ '\n' ∉ s := by
  unfold codeSpan? at h
  split at h
  · rename_i c t
    split at h
    · simp at h
    · rename_i hc
      obtain ⟨⟨s', r'⟩, hs, he⟩ := Option.map_eq_some_iff.mp h
      obtain ⟨rfl, rfl⟩ := Prod.mk.inj he
      obtain ⟨rfl, hs'⟩ := spanEnd?_sound hs
      exact ⟨rfl, by simp, by simp [hs', eq_comm, hc]⟩
  · simp at h

theorem codeSpan?_append (hn : s ≠ []) (hb : '}' ∉ s) (hl : '\n' ∉ s) (r : Text) :
    codeSpan? ('{' :: '{' :: (s ++ '}' :: '}' :: r)) = some (s, r) := by
  cases s with
  | nil => exact absurd rfl hn
  | cons c s =>
    simp only [List.mem_cons, not_or] at hb hl
    rw [List.cons_append, codeSpan?, if_neg (Ne.symm hl.1), spanEnd?_append hb.2 hl.2]
    rfl

theorem codePattern_turns : codePattern.Turns fun u v => ∃ s, s ≠ [] ∧ '\n' ∉ s ∧
    u = '{' :: '{' :: (s ++ ['}', '}']) ∧ v = '`' :: (s ++ ['`']) := by
  intro start t h hit
  obtain ⟨⟨s, r⟩, hr, rfl⟩ := Option.map_eq_some_iff.mp hit
  obtain ⟨rfl, hn, hl⟩ := codeSpan?_sound hr
  exact ⟨'{' :: '{' :: (s ++ ['}', '}']), by simp, s, hn, hl, rfl, rfl⟩

variable {x : Char}

/-- A span ends before a line feed, and a carriage return at the end is no part of one. -/
theorem spanEnd?_append_lineEnd (hx : x = '\n' ∨ x = '\r' ∧ t = []) (s : Text) :
    spanEnd? (s ++ x :: t) = (spanEnd? s).map fun (u, r) => (u, r ++ x :: t) := by
  have hb : x ≠ '}' := by rcases hx with rfl | ⟨rfl, -⟩ <;> decide
  fun_induction spanEnd? s with
  | case1 => rcases hx with rfl | ⟨rfl, rfl⟩ <;> rfl
  | case2 s => rfl
  | case3 s hs =>
    rw [List.cons_append, spanEnd?, if_pos rfl]
    · rfl
    · rintro _ h
      simp at h
  | case4 c s hs hn ih =>
    rw [List.cons_append, spanEnd?, if_neg hn, ih]
    · cases spanEnd? s <;> rfl
    · rintro t' rfl he
      cases s with
      | nil => exact hb (List.cons.inj he).1
      | cons d s =>
        obtain ⟨rfl, -⟩ := List.cons.inj he
        exact hs s rfl rfl

theorem codeSpan?_append_lineEnd (hx : x = '\n' ∨ x = '\r' ∧ t = []) (s : Text) :
    codeSpan? (s ++ x :: t) = (codeSpan? s).map fun (u, r) => (u, r ++ x :: t) := by
  have hb : x ≠ '{' := by rcases hx with rfl | ⟨rfl, -⟩ <;> decide
  rcases s with _ | ⟨a, _ | ⟨b, s⟩⟩
  · rcases hx with rfl | ⟨rfl, rfl⟩ <;> rfl
  · simp [codeSpan?, hb]
  · by_cases h : a = '{' ∧ b = '{'
    · obtain ⟨rfl, rfl⟩ := h
      cases s with
      | nil => rcases hx with rfl | ⟨rfl, rfl⟩ <;> rfl
      | cons c s =>
        simp only [List.cons_append, codeSpan?, spanEnd?_append_lineEnd hx]
        split
        · rfl
        · cases spanEnd? s <;> rfl
    · have miss : ∀ u, codeSpan? (a :: b :: u) = none := by
        intro u
        unfold codeSpan?
        split
        · rename_i he
          simp_all
        · rfl
      rw [List.cons_append, List.cons_append, miss, miss, Option.map_none]

theorem ignores_codePattern (hx : x = '\n' ∨ x = '\r' ∧ t = []) :
    codePattern.Ignores (x :: t) := by
  intro start s
  simp only [codePattern, codeSpan?_append_lineEnd hx, Option.map_map]
  rfl

theorem lineLocal_codePattern : codePattern.LineLocal where
  breaksLine := rfl
  find?_append start s t := ignores_codePattern (.inl rfl) start s
  count_replace := codePattern_turns.count_replaceFrom fun u v h => by
    obtain ⟨s, -, -, rfl, rfl⟩ := h
    simp

theorem passes_codePattern : codePattern.PassesBut ['{', '\n'] := by
  refine codePattern_turns.passesBut ?_ (by simp [codePattern, isLineFeed])
  rintro u v ⟨s, -, -, rfl, -⟩
  exact ⟨'{', by simp, _, rfl⟩

theorem find?_codePattern_brace (h : c ≠ '{') (start : Bool) (t : Text) :
    codePattern.find? start ('{' :: c :: t) = none := by
  refine codePattern_turns.find?_eq_none ?_ start
  rintro u v r ⟨s, -, -, rfl, -⟩ he
  exact h (List.cons.inj (List.cons.inj he).2).1

theorem find?_codePattern_span (hn : s ≠ []) (hb : '}' ∉ s) (hl : '\n' ∉ s) (start : Bool)
    (t : Text) : codePattern.find? start ('{' :: '{' :: (s ++ '}' :: '}' :: t)) =
      some ⟨'`' :: (s ++ ['`']), t⟩ := by
  simp [codePattern, codeSpan?_append hn hb hl]

/-! ## The nearest span -/

/-- Two opening braces at one position and two closing ones at another, with something between
them and no line feed in it. -/
structure SpanAt (t : Text) (i j : ℕ) : Prop where
  opens : ['{', '{'] <+: t.drop i
  closes : ['}', '}'] <+: t.drop j
  nonempty : i + 3 ≤ j
  oneLine : '\n' ∉ t.extract (i + 2) j

/-- The span that opens first, up to where it can first close. -/
structure FirstSpan (t : Text) (i j : ℕ) : Prop extends SpanAt t i j where
  opens_le : ∀ i' j', SpanAt t i' j' → i ≤ i'
  closes_le : ∀ j', SpanAt t i j' → j ≤ j'

/-- The contents of the first span and of those in the text after it. -/
inductive Spans : Text → List Text → Prop where
  | none {t : Text} (h : ∀ i j, ¬ SpanAt t i j) : Spans t []
  | first {t : Text} {i j : ℕ} {ss : List Text} (h : FirstSpan t i j)
      (rest : Spans (t.drop (j + 2)) ss) : Spans t (t.extract (i + 2) j :: ss)

section Nearest

variable {i j : ℕ}

theorem SpanAt.eq_append (h : SpanAt t i j) :
    t = t.take i ++ '{' :: '{' :: (t.extract (i + 2) j ++ '}' :: '}' :: t.drop (j + 2)) := by
  obtain ⟨u, hu⟩ := h.opens
  obtain ⟨v, hv⟩ := h.closes
  have hi : u = t.drop (i + 2) := by rw [← List.drop_drop, ← hu]; rfl
  have hj : v = t.drop (j + 2) := by rw [← List.drop_drop, ← hv]; rfl
  have hd : (t.drop (i + 2)).drop (j - (i + 2)) = t.drop j := by
    rw [List.drop_drop]
    congr 1
    have := h.nonempty
    omega
  have he : t.extract (i + 2) j ++ t.drop j = t.drop (i + 2) := by
    rw [List.extract_eq_take_drop, ← hd, List.take_append_drop]
  calc t = t.take i ++ '{' :: '{' :: u := by
        rw [show '{' :: '{' :: u = t.drop i from hu, List.take_append_drop]
    _ = t.take i ++ '{' :: '{' :: (t.extract (i + 2) j ++ '}' :: '}' :: v) := by
        rw [show '}' :: '}' :: v = t.drop j from hv, he, hi]
    _ = _ := by rw [hj]

theorem SpanAt.length_extract (h : SpanAt t i j) : i + 2 + (t.extract (i + 2) j).length = j := by
  have hj : j < t.length := by
    by_contra hle
    simpa [List.drop_eq_nil_of_le (Nat.le_of_not_lt hle)] using h.closes
  have := h.nonempty
  rw [List.extract_eq_take_drop, List.length_take, List.length_drop]
  omega

theorem extract_span (a s b : Text) :
    (a ++ '{' :: '{' :: (s ++ b)).extract (a.length + 2) (a.length + 2 + s.length) = s := by
  have hd : (a ++ '{' :: '{' :: (s ++ b)).drop (a.length + 2) = s ++ b := by
    rw [← List.drop_drop, List.drop_left]
    rfl
  rw [List.extract_eq_take_drop, hd, Nat.add_sub_cancel_left, List.take_left]

theorem drop_span (a s b : Text) :
    (a ++ '{' :: '{' :: (s ++ b)).drop (a.length + 2 + s.length) = b := by
  rw [← List.drop_drop, ← List.drop_drop, List.drop_left]
  exact List.drop_left

theorem spanAt_append (hn : s ≠ []) (hl : '\n' ∉ s) (a b : Text) :
    SpanAt (a ++ '{' :: '{' :: (s ++ '}' :: '}' :: b)) a.length (a.length + 2 + s.length) where
  opens := by simp
  closes := by simp [drop_span]
  nonempty := by
    have := List.length_pos_of_ne_nil hn
    omega
  oneLine := by rwa [extract_span]

theorem extract_cons (c : Char) (t : Text) (i j : ℕ) :
    (c :: t).extract (i + 1) (j + 1) = t.extract i j := by
  rw [List.extract_eq_take_drop, List.extract_eq_take_drop, List.drop_succ_cons,
    Nat.add_sub_add_right]

theorem spanAt_cons_iff : SpanAt (c :: t) (i + 1) (j + 1) ↔ SpanAt t i j := by
  have he : (c :: t).extract (i + 1 + 2) (j + 1) = t.extract (i + 2) j := extract_cons c t (i + 2) j
  constructor
  · rintro ⟨ho, hc, hn, hl⟩
    exact ⟨ho, hc, by omega, he ▸ hl⟩
  · rintro ⟨ho, hc, hn, hl⟩
    exact ⟨ho, hc, by omega, he ▸ hl⟩

theorem FirstSpan.of_cons (h : FirstSpan (c :: t) (i + 1) (j + 1)) : FirstSpan t i j where
  toSpanAt := spanAt_cons_iff.mp h.toSpanAt
  opens_le _ _ h' := Nat.le_of_succ_le_succ (h.opens_le _ _ (spanAt_cons_iff.mpr h'))
  closes_le _ h' := Nat.le_of_succ_le_succ (h.closes_le _ (spanAt_cons_iff.mpr h'))

theorem exists_firstSpan (h : SpanAt t i j) : ∃ i j, FirstSpan t i j := by
  classical
  have opens : ∃ i j, SpanAt t i j := ⟨i, j, h⟩
  have closes := Nat.find_spec opens
  exact ⟨_, _, Nat.find_spec closes, fun _ j' h' => Nat.find_min' opens ⟨j', h'⟩,
    fun _ h' => Nat.find_min' closes h'⟩

/-- The scan for the end stops at the first two closing braces, and no later. -/
theorem exists_spanEnd? (hl : '\n' ∉ s) (b : Text) :
    ∃ u r, spanEnd? (s ++ '}' :: '}' :: b) = some (u, r) ∧ u.length ≤ s.length := by
  induction s with
  | nil => exact ⟨[], b, rfl, le_rfl⟩
  | cons c s ih =>
    simp only [List.mem_cons, not_or] at hl
    obtain ⟨u, r, hu, hle⟩ := ih hl.2
    rw [List.cons_append]
    unfold spanEnd?
    split
    · simp_all
    · exact ⟨[], _, rfl, Nat.zero_le _⟩
    · rename_i he
      obtain ⟨rfl, rfl⟩ := List.cons.inj he
      rw [if_neg (Ne.symm hl.1), hu]
      exact ⟨c :: u, r, rfl, Nat.succ_le_succ hle⟩

theorem exists_codeSpan? (hn : s ≠ []) (hl : '\n' ∉ s) (b : Text) :
    ∃ u r, codeSpan? ('{' :: '{' :: (s ++ '}' :: '}' :: b)) = some (u, r) ∧
      u.length ≤ s.length := by
  obtain ⟨c, s, rfl⟩ := List.exists_cons_of_ne_nil hn
  simp only [List.mem_cons, not_or] at hl
  obtain ⟨u, r, hu, hle⟩ := exists_spanEnd? hl.2 b
  refine ⟨c :: u, r, ?_, Nat.succ_le_succ hle⟩
  rw [List.cons_append, codeSpan?, if_neg (Ne.symm hl.1), hu]
  rfl

theorem spanAt_of_codeSpan? (h : codeSpan? t = some (s, r)) : SpanAt t 0 (2 + s.length) := by
  obtain ⟨rfl, hn, hl⟩ := codeSpan?_sound h
  simpa using spanAt_append hn hl [] r

theorem find?_codePattern_of_forall (h : ∀ j, ¬ SpanAt t 0 j) (start : Bool) :
    codePattern.find? start t = none := by
  by_contra hn
  obtain ⟨hit, found⟩ := Option.ne_none_iff_exists'.mp hn
  obtain ⟨⟨s, r⟩, hs, -⟩ := Option.map_eq_some_iff.mp found
  exact h _ (spanAt_of_codeSpan? hs)

/-- A span at the front is found up to where it can first close. -/
theorem FirstSpan.find?_eq (h : FirstSpan t 0 j) (start : Bool) : codePattern.find? start t =
    some ⟨'`' :: (t.extract 2 j ++ ['`']), t.drop (j + 2)⟩ := by
  have ht := h.eq_append
  have hlen := h.length_extract
  have hle := h.nonempty
  rw [List.take_zero, List.nil_append, Nat.zero_add] at ht
  rw [Nat.zero_add] at hlen
  have hn : t.extract 2 j ≠ [] := by
    intro he
    simp only [he, List.length_nil] at hlen
    omega
  obtain ⟨u, r, hu, hul⟩ := exists_codeSpan? hn h.oneLine (t.drop (j + 2))
  rw [← ht] at hu
  -- what the scan finds is a span as well, so it is no shorter than the first one
  have hj := h.closes_le _ (spanAt_of_codeSpan? hu)
  obtain ⟨hs, -, -⟩ := codeSpan?_sound hu
  rw [ht, List.cons.injEq, List.cons.injEq] at hs
  obtain ⟨rfl, hr⟩ := List.append_inj hs.2.2 (by omega)
  obtain rfl : t.drop (j + 2) = r := by simpa using hr
  simp [codePattern, hu]

theorem FirstSpan.replaceFrom_eq (h : FirstSpan t i j) (start : Bool) :
    codePattern.replaceFrom start t = t.take i ++
      '`' :: (t.extract (i + 2) j ++ '`' :: codePattern.replaceFrom false (t.drop (j + 2))) := by
  induction i generalizing t j start with
  | zero => simp [replaceFrom_of_find? (h.find?_eq start)]
  | succ i ih =>
    obtain _ | j := j
    · exact absurd h.nonempty (by omega)
    · cases t with
      | nil => exact absurd h.opens (by simp)
      | cons c t =>
        have miss : codePattern.find? start (c :: t) = none :=
          find?_codePattern_of_forall (fun j' h' => by simpa using h.opens_le 0 j' h') start
        rw [replaceFrom_cons miss, ih h.of_cons]
        simp [Nat.add_right_comm _ 1 2]

theorem replaceFrom_codePattern_of_forall (h : ∀ i j, ¬ SpanAt t i j) (start : Bool) :
    codePattern.replaceFrom start t = t := by
  refine replaceFrom_eq_self (P := fun t => ∀ i j, ¬ SpanAt t i j) (fun t ht => ?_)
    (fun c t ht => ?_) start h
  · exact find?_codePattern_of_forall (ht 0)
  · exact fun i j h' => ht _ _ (spanAt_cons_iff.mpr h')

/-- A span and the text up to the next one. -/
def braced (x : Text × Text) : Text := '{' :: '{' :: (x.1 ++ '}' :: '}' :: x.2)

/-- The same between backticks. -/
def ticked (x : Text × Text) : Text := '`' :: (x.1 ++ '`' :: x.2)

theorem count_flatMap_ticked (xs : List (Text × Text)) :
    (xs.flatMap ticked).count '{' + 2 * xs.length = (xs.flatMap braced).count '{' ∧
    (xs.flatMap ticked).count '}' + 2 * xs.length = (xs.flatMap braced).count '}' ∧
    (xs.flatMap ticked).count '`' = (xs.flatMap braced).count '`' + 2 * xs.length := by
  induction xs with
  | nil => simp
  | cons x xs ih =>
    simp [braced, ticked]
    omega

theorem apply_code_of_firstSpan (h : FirstSpan t i j) : Rule.code.apply t = t.take i ++
    '`' :: (t.extract (i + 2) j ++ '`' :: Rule.code.apply (t.drop (j + 2))) := by
  have anywhere : codePattern.Anywhere := fun _ => rfl
  show codePattern.replace t = _ ++ '`' :: (_ ++ '`' :: codePattern.replace _)
  rw [replace, replace, h.replaceFrom_eq, anywhere.replaceFrom_true]

theorem exists_spans (t : Text) : ∃ (p : Text) (xs : List (Text × Text)),
    Spans t (xs.map (·.1)) ∧ t = p ++ xs.flatMap braced ∧
      Rule.code.apply t = p ++ xs.flatMap ticked := by
  induction hn : t.length using Nat.strongRecOn generalizing t with
  | _ n ih =>
    by_cases h : ∃ i j, SpanAt t i j
    · obtain ⟨i, j, hs⟩ := h
      obtain ⟨i, j, h⟩ := exists_firstSpan hs
      have hlt : (t.drop (j + 2)).length < n := by
        have := congrArg List.length h.eq_append
        simp only [List.length_append, List.length_cons] at this
        omega
      obtain ⟨p, xs, hss, hp, hq⟩ := ih _ hlt _ rfl
      refine ⟨t.take i, (t.extract (i + 2) j, p) :: xs, .first h hss, ?_, ?_⟩
      · conv_lhs => rw [h.eq_append, hp]
        simp [braced]
      · rw [apply_code_of_firstSpan h, hq]
        simp [ticked]
    · simp only [not_exists] at h
      have applied : Rule.code.apply t = t := replaceFrom_codePattern_of_forall h true
      exact ⟨t, [], .none h, by simp, by simp [applied]⟩

end Nearest

/-- Conversion takes the span that opens first, up to where it can first close, and goes on after
it. A span's text is kept, and each span turns two braces of either kind into two backticks. -/
theorem apply_code_spans (t : Text) :
    (∀ i j, FirstSpan t i j → Rule.code.apply t = t.take i ++
      '`' :: (t.extract (i + 2) j ++ '`' :: Rule.code.apply (t.drop (j + 2)))) ∧
    ((∀ i j, ¬ SpanAt t i j) → Rule.code.apply t = t) ∧
    ∃ (p : Text) (xs : List (Text × Text)), Spans t (xs.map (·.1)) ∧
      t = p ++ xs.flatMap braced ∧ Rule.code.apply t = p ++ xs.flatMap ticked ∧
      (Rule.code.apply t).count '{' + 2 * xs.length = t.count '{' ∧
      (Rule.code.apply t).count '}' + 2 * xs.length = t.count '}' ∧
      (Rule.code.apply t).count '`' = t.count '`' + 2 * xs.length := by
  refine ⟨fun i j => apply_code_of_firstSpan, fun h => replaceFrom_codePattern_of_forall h true, ?_⟩
  obtain ⟨p, xs, hs, ht, hr⟩ := exists_spans t
  obtain ⟨ho, hc, hb⟩ := count_flatMap_ticked xs
  refine ⟨p, xs, hs, ht, hr, ?_, ?_, ?_⟩ <;>
  · rw [hr]
    conv_rhs => rw [ht]
    simp only [List.count_append]
    omega

/-- Of four closing braces the span holds the first one, and an empty span is none. -/
theorem apply_code_spans_braces :
    FirstSpan "\x7b\x7b\x7d\x7d\x7d\x7d\x7b\x7b\x7d\x7d".toList 0 3 ∧
    Rule.code.apply "\x7b\x7b\x7d\x7d\x7d\x7d\x7b\x7b\x7d\x7d".toList =
      "`\x7d`\x7d\x7b\x7b\x7d\x7d".toList := by
  have h : FirstSpan "\x7b\x7b\x7d\x7d\x7d\x7d\x7b\x7b\x7d\x7d".toList 0 3 :=
    ⟨⟨by decide, by decide, by decide, by decide⟩, fun i _ _ => Nat.zero_le i,
      fun _ h => h.nonempty⟩
  have applied := (apply_code_spans _).1 0 3 h
  exact ⟨h, applied.trans (by cbv)⟩

end IssueMarkdown.Markup
