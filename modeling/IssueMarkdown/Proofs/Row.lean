import IssueMarkdown.Proofs.Inline
import IssueMarkdown.Proofs.Seam

/-! # Conversion of lines of items

Item by item each rule does what the stage of the items says, and the two quote markers
around a line of items become a prompt before it.
-/

namespace IssueMarkdown.Markup

open Text Pattern

variable {c : Char} {p : Pattern} {r : Row} {f g : Item → Text} {l t u x : Text}

/-! ## Rows -/

theorem replace_marked (hp : p.Anywhere) (hs : p.Passes ' ') (hq : p.Keeps quoteMarker)
    (h : ∀ i, p.Makes (f i) (g i)) (r : Row) : p.replace (r.marked f) = r.marked g := by
  have hi : ∀ l : Inline, p.Makes (unwords (l.items.map f)) (unwords (l.items.map g)) :=
    fun l => makes_unwords hs fun i _ => h i
  cases r with
  | inline l => exact (hi l).replace_eq hp
  | quote l => exact (hq.append_makes ((hi l).append hq.makes (by decide))).replace_eq hp

theorem makes_prompted (hs : p.Passes ' ') (hg : p.Passes '>') (h : ∀ i, p.Makes (f i) (g i))
    (r : Row) : p.Makes (r.prompted f) (r.prompted g) := by
  have hi : ∀ l : Inline, p.Makes (unwords (l.items.map f)) (unwords (l.items.map g)) :=
    fun l => makes_unwords hs fun i _ => h i
  cases r with
  | inline l => exact hi l
  | quote l =>
    have hk : p.Keeps ['>', ' '] := keeps_of_passes (by simp [hs, hg])
    exact hk.append_makes (hi l)

theorem mem_unwords_map {is : List Item} (h : c ∈ unwords (is.map f)) :
    c = ' ' ∨ ∃ i ∈ is, c ∈ f i := by
  rcases mem_intercalate h with hs | ⟨t, ht, hc⟩
  · exact .inl (List.mem_singleton.mp hs)
  · obtain ⟨i, hi, rfl⟩ := List.mem_map.mp ht
    exact .inr ⟨i, hi, hc⟩

theorem mem_prompted (h : c ∈ r.prompted f) : c ∈ ['>', ' '] ∨ ∃ i ∈ r.items, c ∈ f i := by
  cases r with
  | inline l =>
    rcases mem_unwords_map h with rfl | hi
    · exact .inl (by simp)
    · exact .inr hi
  | quote l =>
    replace h : c = '>' ∨ c = ' ' ∨ c ∈ unwords (l.items.map f) := by
      simpa [Row.prompted] using h
    rcases h with rfl | rfl | h
    · exact .inl (by simp)
    · exact .inl (by simp)
    · rcases mem_unwords_map h with rfl | hi
      · exact .inl (by simp)
      · exact .inr hi

theorem mem_prompted_of_mem {i : Item} (hi : i ∈ r.items) (hc : c ∈ f i) : c ∈ r.prompted f := by
  have hm : ∀ l : Inline, i ∈ l.items → c ∈ unwords (l.items.map f) :=
    fun l hi => mem_intercalate_of_mem (List.mem_map_of_mem hi) hc
  cases r with
  | inline l => exact hm l hi
  | quote l => exact List.mem_cons_of_mem _ (List.mem_cons_of_mem _ (hm l hi))

theorem prompted_congr (h : ∀ i ∈ r.items, f i = g i) : r.prompted f = r.prompted g := by
  cases r with
  | inline l => exact congrArg unwords (List.map_congr_left h)
  | quote l => exact congrArg ('>' :: ' ' :: unwords ·) (List.map_congr_left h)

/-- What is left of a line begins with a brace only where a code span stands. -/
theorem brace_of_unwords_unlinked {is : List Item}
    (h : unwords (is.map Item.unlinked) = '{' :: c :: u) : c ∈ ['{', '*'] := by
  have first : ∀ (i : Item) (w : Text), w.head? ≠ some '{' → i.unlinked ++ w = '{' :: c :: u →
      c ∈ ['{', '*'] := by
    intro i w hw he
    cases i with
    | word q =>
      obtain ⟨d, v, hd⟩ := List.exists_cons_of_ne_nil q.ne_nil
      replace he : q.text ++ w = '{' :: c :: u := he
      rw [hd] at he
      obtain rfl := (List.cons.inj he).1
      exact absurd (q.isPlain '{' (hd ▸ List.mem_cons_self)) (by decide)
    | code q =>
      by_cases hq : q.IsColourWord
      · rw [unlinked_code_of_isColourWord hq] at he
        simp [← (List.cons.inj (List.cons.inj he).2).1]
      · rw [unlinked_code hq] at he
        simp [← (List.cons.inj (List.cons.inj he).2).1]
    | link q v => exact absurd (congrArg List.head? he) hw
    | mention q => exact absurd (congrArg List.head? he) hw
    | colour s b q => exact absurd (List.cons.inj he).1 (by decide)
  cases is with
  | nil => simp [unwords] at h
  | cons i is =>
    by_cases hn : is = []
    · subst hn
      exact first i [] (by simp) (by simpa [unwords] using h)
    · rw [List.map_cons, unwords, List.intercalate_cons_of_ne_nil (by simpa using hn),
        List.append_assoc] at h
      exact first i _ (by simp) h

theorem after?_unwords_unlinked (hc : c ∉ ['{', '*']) (lead : Text) (is : List Item) :
    after? ('{' :: c :: lead) (unwords (is.map Item.unlinked)) = none := by
  rw [after?_eq_none_iff]
  rintro ⟨s, hs⟩
  exact hc (brace_of_unwords_unlinked hs.symm)

theorem isWithinLine_of_mem_unlinked {i : Item} (h : c ∈ i.unlinked) : isWithinLine c := by
  have hn : c ∉ ['\r', '\n'] := unlinked_notMem h (by decide) (by decide)
  simpa [isWithinLine] using hn

theorem isWithinLine_of_mem_prompted (h : c ∈ r.prompted Item.unlinked) : isWithinLine c := by
  rcases mem_prompted h with h | ⟨i, -, h⟩
  · exact (by decide : ∀ c ∈ ['>', ' '], isWithinLine c) c h
  · exact isWithinLine_of_mem_unlinked h

theorem isLineEnd_eq_false (h : isWithinLine c) : isLineEnd c = false := by
  have : ¬ c = '\r' ∧ ¬ c = '\n' := by simpa [isWithinLine] using h
  simp [isLineEnd, this]

theorem replace_quotes (r : Row) :
    quoteClosePattern.replace (quoteOpenPattern.replace (r.marked Item.unlinked)) =
      r.prompted Item.unlinked := by
  have anywhere : quoteClosePattern.Anywhere := fun _ => rfl
  have hm : ∀ l : Inline, quoteClosePattern.Makes (unwords (l.items.map Item.unlinked))
      (unwords (l.items.map Item.unlinked)) := fun l =>
    makes_unwords (passes_quoteClosePattern (by decide))
      fun i _ => (keeps_unlinked_quoteClosePattern i).makes
  have hb : ∀ l : Inline, ∀ c ∈ unwords (l.items.map Item.unlinked), isLineEnd c = false :=
    fun l c hc => isLineEnd_eq_false (isWithinLine_of_mem_prompted (r := .inline l) hc)
  cases r with
  | inline l =>
    have miss : quoteOpenPattern.find? true (unwords (l.items.map Item.unlinked)) = none := by
      show (after? _ _).map _ = none
      rw [quoteMarker, after?_unwords_unlinked (by decide)]
      rfl
    rw [Row.marked, atLineStart_quoteOpenPattern.replace_of_miss miss (hb l)]
    exact (hm l).replace_eq anywhere
  | quote l =>
    rw [Row.marked, atLineStart_quoteOpenPattern.replace_of_hit
      (h := ⟨['>', ' '], unwords (l.items.map Item.unlinked) ++ quoteMarker⟩) rfl
      (List.forall_mem_append.mpr ⟨hb l, by decide⟩)]
    have hk : quoteClosePattern.Keeps ['>', ' '] := passes_quoteClosePattern.keeps (by decide)
    have closed : quoteClosePattern.replaceFrom false quoteMarker = [] := by
      rw [replaceFrom_of_find? (h := ⟨[], []⟩) rfl, replaceFrom_nil, List.append_nil]
    rw [replace, anywhere.replaceFrom_true, hk, hm l _ (by decide), closed, List.append_nil]
    rfl

theorem keeps_quoteMarker_linkPattern : linkPattern.Keeps quoteMarker :=
  passes_linkPattern.keeps (by decide)

theorem panelReady_row (r : Row) : panelReady r.source = r.prompted Item.unlinked := by
  have colours : colourPattern.replace r.source = r.marked Item.bolded :=
    replace_marked (fun _ => rfl) (passes_colourPattern (by decide)) keeps_quoteMarker_colourPattern
      makes_bolded r
  have links : linkPattern.replace (r.marked Item.bolded) = r.marked Item.unlinked :=
    replace_marked (fun _ => rfl) (passes_linkPattern (by decide)) keeps_quoteMarker_linkPattern
      makes_unlinked r
  have openers : panelOpenPattern.replace (r.prompted Item.unlinked) = r.prompted Item.unlinked :=
    (makes_prompted (passes_panelOpenPattern (by decide)) (passes_panelOpenPattern (by decide))
      (fun i => (keeps_unlinked_panelOpenPattern i).makes) r).replace_eq fun _ => rfl
  show panelOpenPattern.replace (quoteClosePattern.replace (quoteOpenPattern.replace
    (linkPattern.replace (colourPattern.replace r.source)))) = _
  rw [colours, links, replace_quotes, openers]

theorem mem_converted {i : Item} (h : c ∈ i.converted) :
    isPlain c ∨ c ∈ ['*', '`', '{', '}'] := by
  have rendered : ∀ {i : Item}, c ∈ i.rendering → isPlain c ∨ c ∈ ['*', '`', '{', '}'] :=
    fun h => (mem_rendering h).imp_right (List.mem_append_left ['{', '}'])
  cases i with
  | code p =>
    by_cases hw : p.IsColourWord
    · rw [Item.converted, if_pos hw] at h
      have hs : ∀ c ∈ ['{', '*', '*', '}'], c ∈ ['*', '`', '{', '}'] := by decide
      exact .inr (hs c h)
    · rw [Item.converted, if_neg hw] at h
      exact rendered h
  | word w => exact rendered (i := .word w) h
  | link p u => exact rendered (i := .link p u) h
  | mention w => exact rendered (i := .mention w) h
  | colour s b p => exact rendered (i := .colour s b p) h

theorem converted_notMem (h : c ∈ r.prompted Item.converted) : c ∉ ['#', '.'] := by
  rcases mem_prompted h with h | ⟨i, -, h⟩
  · exact (by decide : ∀ c ∈ ['>', ' '], c ∉ ['#', '.']) c h
  · rcases mem_converted h with h | h
    · exact notMem_of_isPlain h (by decide)
    · exact (by decide : ∀ c ∈ ['*', '`', '{', '}'], c ∉ ['#', '.']) c h

/-- A line of items is finished by its code spans, as itself and below a note's head. -/
theorem finished_append_prompted (hu : ∀ c ∈ u, c ∈ ['>', ' ']) (r : Row) :
    finished (u ++ r.prompted Item.unlinked) = u ++ r.prompted Item.converted := by
  have hk : codePattern.Keeps u := passes_codePattern.keeps fun c hc =>
    (by decide : ∀ c ∈ ['>', ' '], c ∉ ['{', '\n']) c (hu c hc)
  have hc : codePattern.replace (u ++ r.prompted Item.unlinked) = u ++ r.prompted Item.converted :=
    (hk.append_makes (makes_prompted (passes_codePattern (by decide))
      (passes_codePattern (by decide)) makes_converted r)).replace_eq fun _ => rfl
  have hn : ∀ c ∈ u ++ r.prompted Item.converted, c ∉ ['#', '.'] :=
    List.forall_mem_append.mpr ⟨fun c hc =>
      (by decide : ∀ c ∈ ['>', ' '], c ∉ ['#', '.']) c (hu c hc), fun c hc => converted_notMem hc⟩
  rw [finished, hc, numbered_of_notMem fun hm => hn _ hm (by decide),
    titled_of_notMem fun hm => hn _ hm (by decide)]

theorem lineFeed_notMem_prompted (r : Row) : '\n' ∉ r.prompted Item.unlinked :=
  fun hm => absurd (isWithinLine_of_mem_prompted hm) (by decide)

theorem convert_row (r : Row) : convert r.source = r.prompted Item.converted := by
  have hr : panelReady r.source = unlines [r.prompted Item.unlinked] := by
    rw [panelReady_row, unlines_singleton]
  rw [convert_eq_unlines hr (by simpa using lineFeed_notMem_prompted r)]
  show unlines [finished ([] ++ r.prompted Item.unlinked)] = _
  rw [finished_append_prompted (by simp), unlines_singleton, List.nil_append]

end IssueMarkdown.Markup
