import IssueMarkdown.Markup.Rule
import IssueMarkdown.Proofs.Layout

/-! # Quote markers

The marker that starts a line and the marker that ends one are found one after the other. Both
know every kind of line break, so what they do together is done to each line of a layout.
-/

namespace IssueMarkdown.Markup

open Text Pattern

variable {c x : Char} {l t : Text}

theorem quoteOpenPattern_turns :
    quoteOpenPattern.Turns fun u v => u = quoteMarker ∧ v = ['>', ' '] := by
  intro start t h hit
  cases start with
  | false => simp [quoteOpenPattern] at hit
  | true =>
    obtain ⟨r, hr, rfl⟩ := Option.map_eq_some_iff.mp hit
    exact ⟨_, after?_eq_some_iff.mp hr, rfl, rfl⟩

theorem quoteClosePattern_turns :
    quoteClosePattern.Turns fun u v => u = quoteMarker ∧ v = [] := by
  intro start t h hit
  obtain ⟨r, hr, rfl⟩ := Option.map_eq_some_iff.mp hit
  exact ⟨_, after?_eq_some_iff.mp (Option.filter_eq_some_iff.mp hr).1, rfl, rfl⟩

theorem atLineStart_quoteOpenPattern : quoteOpenPattern.AtLineStart := fun _ => rfl

theorem lineLocal_quoteOpenPattern : quoteOpenPattern.LineLocal where
  breaksLine := rfl
  find?_append :=
    find?_append_of_stopsAt_start (fun _ _ => rfl) (stopsAt_after? (by decide))
  count_replace := quoteOpenPattern_turns.count_replaceFrom fun u v h => by
    obtain ⟨rfl, rfl⟩ := h
    decide

theorem stopsAt_quoteMarker (hx : x = '\n' ∨ x = '\r') : StopsAt x (after? quoteMarker) := by
  refine stopsAt_after? ?_
  rcases hx with rfl | rfl <;> decide

theorem endsLine_append (hx : x = '\n' ∨ x = '\r') (s t : Text) :
    endsLine (s ++ x :: t) = endsLine s := by
  cases s with
  | nil => rcases hx with rfl | rfl <;> rfl
  | cons c s => rfl

theorem stopsAt_lineEndMarker (hx : x = '\n' ∨ x = '\r') :
    StopsAt x fun t => (after? quoteMarker t).filter endsLine := by
  intro s t
  simp only [stopsAt_quoteMarker hx s t]
  cases after? quoteMarker s with
  | none => rfl
  | some r =>
    simp only [Option.map_some, Option.filter_some, endsLine_append hx]
    split <;> rfl

theorem lineLocal_quoteClosePattern : quoteClosePattern.LineLocal where
  breaksLine := rfl
  find?_append := find?_append_of_stopsAt (fun _ _ => rfl) (stopsAt_lineEndMarker (.inl rfl))
  count_replace := quoteClosePattern_turns.count_replaceFrom fun u v h => by
    obtain ⟨rfl, rfl⟩ := h
    decide

theorem passes_quoteOpenPattern : quoteOpenPattern.PassesBut ['{', '\n', '\r'] := by
  refine quoteOpenPattern_turns.passesBut ?_ (by simp [quoteOpenPattern, isLineEnd])
  rintro u v ⟨rfl, -⟩
  exact ⟨'{', by simp, _, rfl⟩

theorem passes_quoteClosePattern : quoteClosePattern.PassesBut ['{', '\n', '\r'] := by
  refine quoteClosePattern_turns.passesBut ?_ (by simp [quoteClosePattern, isLineEnd])
  rintro u v ⟨rfl, -⟩
  exact ⟨'{', by simp, _, rfl⟩

theorem find?_quoteClosePattern_brace (h : c ≠ 'q') (start : Bool) (t : Text) :
    quoteClosePattern.find? start ('{' :: c :: t) = none := by
  refine quoteClosePattern_turns.find?_eq_none ?_ start
  rintro u v r ⟨rfl, -⟩ he
  exact h (List.cons.inj (List.cons.inj he).2).1

/-- A quote marker with one more brace after it does not end its line. -/
theorem find?_quoteClosePattern_span {s : Text} (hb : '}' ∉ s) (start : Bool) (t : Text) :
    quoteClosePattern.find? start ('{' :: (s ++ '}' :: '}' :: t)) = none := by
  by_contra hn
  obtain ⟨hit, hh⟩ := Option.ne_none_iff_exists'.mp hn
  obtain ⟨r, hr, rfl⟩ := Option.map_eq_some_iff.mp hh
  obtain ⟨hr, hends⟩ := Option.filter_eq_some_iff.mp hr
  have hm : quoteMarker = quoteMarker.dropLast ++ ['}'] := rfl
  rw [after?_eq_some_iff, hm, List.append_assoc, ← List.cons_append] at hr
  obtain ⟨-, rfl⟩ := first_split_unique (by simpa using hb) (by decide) hr
  simp [endsLine, isLineEnd] at hends

/-! ## Lines -/

theorem breakLocal_quoteOpenPattern : quoteOpenPattern.BreakLocal where
  breaksLine x hx := by rcases hx with rfl | rfl <;> rfl
  ignores x t hx :=
    ignores_of_recognised_start (fun _ _ => rfl) fun s => stopsAt_quoteMarker hx s t

theorem breakLocal_quoteClosePattern : quoteClosePattern.BreakLocal where
  breaksLine x hx := by rcases hx with rfl | rfl <;> rfl
  ignores x t hx :=
    ignores_of_recognised (fun _ _ => rfl) fun s => stopsAt_lineEndMarker hx s t

/-- A line with a prompt for the marker that it may begin with. -/
def quoteOpened (l : Text) : Text :=
  if quoteMarker <+: l then '>' :: ' ' :: l.drop quoteMarker.length else l

/-- A line without the marker that it may end with. -/
def quoteClosed (l : Text) : Text :=
  if quoteMarker <:+ l then l.take (l.length - quoteMarker.length) else l

theorem quoteOpened_append (r : Text) : quoteOpened (quoteMarker ++ r) = '>' :: ' ' :: r := by
  rw [quoteOpened, if_pos (List.prefix_append ..), List.drop_left]

theorem quoteClosed_append (r : Text) : quoteClosed (r ++ quoteMarker) = r := by
  rw [quoteClosed, if_pos (List.suffix_append ..), List.length_append, Nat.add_sub_cancel,
    List.take_left]

theorem isLineEnd_eq_false_of_oneLine (hl : OneLine l) : ∀ c ∈ l, isLineEnd c = false := by
  intro c hc
  have := hl c hc
  simp [isLineEnd, this]

theorem replace_quoteOpenPattern (hl : OneLine l) : quoteOpenPattern.replace l = quoteOpened l := by
  by_cases hp : quoteMarker <+: l
  · obtain ⟨r, rfl⟩ := hp
    have hr : ∀ c ∈ r, isLineEnd c = false := fun c hc =>
      isLineEnd_eq_false_of_oneLine hl c (List.mem_append_right _ hc)
    rw [quoteOpened_append]
    exact atLineStart_quoteOpenPattern.replace_of_hit (h := ⟨['>', ' '], r⟩) rfl hr
  · have missed : quoteOpenPattern.find? true l = none := by
      simp [quoteOpenPattern, after?_eq_none_iff.mpr hp]
    rw [quoteOpened, if_neg hp]
    exact atLineStart_quoteOpenPattern.replace_of_miss missed (isLineEnd_eq_false_of_oneLine hl)

/-- A marker is found where it is all that is left of its line. -/
theorem find?_quoteClosePattern_of_oneLine (hl : OneLine l) (start : Bool) :
    quoteClosePattern.find? start l = if l = quoteMarker then some ⟨[], []⟩ else none := by
  split_ifs with he
  · rw [he]
    rfl
  · by_contra hn
    obtain ⟨h, found⟩ := Option.ne_none_iff_exists'.mp hn
    obtain ⟨r, hr, -⟩ := Option.map_eq_some_iff.mp found
    obtain ⟨hr, hends⟩ := Option.filter_eq_some_iff.mp hr
    obtain rfl := after?_eq_some_iff.mp hr
    cases r with
    | nil => exact he (List.append_nil _)
    | cons c r =>
      have hc : isLineEnd c = false := isLineEnd_eq_false_of_oneLine hl c (by simp)
      exact Bool.false_ne_true (hc.symm.trans hends)

theorem quoteClosed_cons (h : c :: l ≠ quoteMarker) :
    quoteClosed (c :: l) = c :: quoteClosed l := by
  by_cases hs : quoteMarker <:+ l
  · obtain ⟨r, rfl⟩ := hs
    rw [quoteClosed_append]
    exact quoteClosed_append (c :: r)
  · have hn : ¬ quoteMarker <:+ c :: l := fun hm =>
      (List.suffix_cons_iff.mp hm).elim (fun he => h he.symm) hs
    rw [quoteClosed, if_neg hn, quoteClosed, if_neg hs]

theorem replaceFrom_quoteClosePattern (hl : OneLine l) (start : Bool) :
    quoteClosePattern.replaceFrom start l = quoteClosed l := by
  induction l generalizing start with
  | nil => rw [replaceFrom_nil, quoteClosed, if_neg (by decide)]
  | cons c l ih =>
    have hf := find?_quoteClosePattern_of_oneLine hl start
    split_ifs at hf with he
    · rw [replaceFrom_of_find? hf, replaceFrom_nil, he]
      exact (quoteClosed_append []).symm
    · rw [replaceFrom_cons hf, quoteClosed_cons he, ih (List.forall_mem_cons.mp hl).2]

/-- What the rule makes of a line: the marker it begins with gives way to a prompt, and then the
marker it ends with is left out. -/
def quoted (l : Text) : Text := quoteClosed (quoteOpened l)

theorem oneLine_quoteOpened (hl : OneLine l) : OneLine (quoteOpened l) := by
  unfold quoteOpened
  split
  · refine List.forall_mem_cons.mpr ⟨by decide, List.forall_mem_cons.mpr ⟨by decide, ?_⟩⟩
    exact fun c hc => hl c (List.mem_of_mem_drop hc)
  · exact hl

theorem oneLine_quoted (hl : OneLine l) : OneLine (quoted l) := by
  unfold quoted quoteClosed
  split
  · exact fun c hc => oneLine_quoteOpened hl c (List.mem_of_mem_take hc)
  · exact oneLine_quoteOpened hl

/-- A line that is one marker becomes a prompt, so no line becomes empty. -/
theorem eq_nil_of_quoted_eq_nil (h : quoted l = []) : l = [] := by
  have hl : quoteOpened l = [] ∨ quoteOpened l = quoteMarker := by
    by_cases hs : quoteMarker <:+ quoteOpened l
    · obtain ⟨r, hr⟩ := hs
      rw [quoted, ← hr, quoteClosed_append] at h
      exact .inr (by rw [← hr, h, List.nil_append])
    · rw [quoted, quoteClosed, if_neg hs] at h
      exact .inl h
  by_cases hp : quoteMarker <+: l
  · obtain ⟨r, rfl⟩ := hp
    rw [quoteOpened_append] at hl
    rcases hl with hl | hl
    · simp at hl
    · exact absurd (List.cons.inj hl).1 (by decide)
  · rw [quoteOpened, if_neg hp] at hl
    exact hl.resolve_right fun he => hp (he ▸ List.prefix_rfl)

theorem replace_quotePatterns (hl : OneLine l) :
    quoteClosePattern.replace (quoteOpenPattern.replace l) = quoted l := by
  rw [replace_quoteOpenPattern hl]
  exact replaceFrom_quoteClosePattern (oneLine_quoteOpened hl) true

theorem replace_quotePatterns_text {x : Layout} (hx : x.Proper) :
    quoteClosePattern.replace (quoteOpenPattern.replace x.text) = (x.map quoted).text :=
  calc quoteClosePattern.replace (quoteOpenPattern.replace x.text)
      = ((x.map quoteOpenPattern.replace).map quoteClosePattern.replace).text := by
        rw [breakLocal_quoteOpenPattern.replace_text, breakLocal_quoteClosePattern.replace_text]
    _ = (x.map quoted).text := by
        rw [Layout.map_map, hx.map_congr fun _ => replace_quotePatterns]

/-- The rule rewrites every line by itself and keeps every break: in the text that it gives, the
same breaks stand between the rewritten lines. -/
theorem apply_quotes_eq_map_quoted (t : Text) :
    Rule.quotes.apply t = ((Layout.ofText t).map quoted).text ∧
    Layout.ofText (Rule.quotes.apply t) = (Layout.ofText t).map quoted := by
  have proper := Layout.proper_ofText t
  have applied : Rule.quotes.apply t = ((Layout.ofText t).map quoted).text := by
    rw [← replace_quotePatterns_text proper, Layout.text_ofText]
    rfl
  refine ⟨applied, ?_⟩
  rw [applied]
  exact (proper.map (fun _ => oneLine_quoted) fun _ => eq_nil_of_quoted_eq_nil).ofText_text

/-- A marker alone on its line, between a carriage return and a line feed. -/
example : Rule.quotes.apply "a\r\x7bquote\x7d\n\x7bquote\x7db\x7bquote\x7d\r\n".toList =
    "a\r> \n> b\r\n".toList := by cbv

end IssueMarkdown.Markup
