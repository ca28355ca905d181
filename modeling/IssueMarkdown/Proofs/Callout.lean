import IssueMarkdown.Proofs.Row
import IssueMarkdown.Proofs.Settling

/-! # Panels around one line

The opener and the closer of a panel pass the rules before panels, whatever stands between
them. A line between them becomes a note, with its code spans converted and every marker of a
list or a heading left as it is; if nothing is left of it, there is no note.
-/

namespace IssueMarkdown.Markup

open Text Pattern

variable {b c t u : Text} {p : Pattern}

/-! ## Openers and closers before panels are made -/

/-- The rules before panels let a brace be that begins the word. -/
theorem applyAll_panelWord (hu : ∀ c ∈ u, Inert c) :
    Rule.applyAll [.status, .stripLinks, .quotes] ('{' :: 'p' :: u) = '{' :: 'p' :: u := by
  have hi : ∀ c ∈ 'p' :: u, Inert c := List.forall_mem_cons.mpr ⟨by decide, hu⟩
  have colours : colourPattern.Keeps ('{' :: 'p' :: u) :=
    ((passes_colourPattern.mono (by decide : _ ⊆ marks)).keeps hi).cons
      (fun t => find?_colourPattern_brace (by decide) _) rfl
  have links : linkPattern.Keeps ('{' :: 'p' :: u) :=
    passes_linkPattern.keeps (List.forall_mem_cons.mpr ⟨by decide, fun c hc hm => hi c hc
      ((by decide : ['[', '\n'] ⊆ marks) hm)⟩)
  have opened : quoteOpenPattern.replace ('{' :: 'p' :: u) = '{' :: 'p' :: u := by
    refine atLineStart_quoteOpenPattern.replace_of_miss rfl (List.forall_mem_cons.mpr ⟨rfl, ?_⟩)
    exact fun c hc => isLineEnd_eq_false (hi c hc).isWithinLine
  have closed : quoteClosePattern.Keeps ('{' :: 'p' :: u) :=
    ((passes_quoteClosePattern.mono (by decide : _ ⊆ marks)).keeps hi).cons
      (fun t => find?_quoteClosePattern_brace (by decide) _ _) rfl
  show quoteClosePattern.replace (quoteOpenPattern.replace
    (linkPattern.replace (colourPattern.replace _))) = _
  rw [colours.makes.replace_eq fun _ => rfl, links.makes.replace_eq fun _ => rfl, opened,
    closed.makes.replace_eq fun _ => rfl]

theorem panelReady_opener (d : HexDigits 6) : panelReady (panelLead ++ (d.text ++ ['}'])) = [] := by
  have hd : ∀ c ∈ d.text, Inert c := by
    intro c hc hm
    have hx : ∀ c ∈ marks, isHex c = false := by decide
    exact Bool.false_ne_true ((hx c hm).symm.trans (d.hex c hc))
  have hi : ∀ c ∈ panelLead.tail.tail ++ (d.text ++ ['}']), Inert c := by
    simp only [List.forall_mem_append]
    exact ⟨by decide, hd, by decide⟩
  have hm : PanelOpener (panelLead ++ (d.text ++ ['}'])) :=
    ⟨panelLead, d.text, by decide, d.length_eq, d.hex, rfl⟩
  have hf := find?_panelOpenPattern_opener hm true []
  rw [List.append_nil] at hf
  rw [panelReady, show panelLead ++ (d.text ++ ['}']) =
    '{' :: 'p' :: (panelLead.tail.tail ++ (d.text ++ ['}'])) from rfl, applyAll_panelWord hi]
  exact (replaceFrom_of_find? hf).trans (by simp)

theorem panelReady_panelCloser : panelReady panelCloser = panelCloser := by
  have ready : Rule.applyAll [.status, .stripLinks, .quotes] panelCloser = panelCloser :=
    applyAll_panelWord (u := ['a', 'n', 'e', 'l', '}']) (by decide)
  have hk : panelOpenPattern.Keeps ['p', 'a', 'n', 'e', 'l', '}'] :=
    passes_panelOpenPattern.keeps (by decide)
  have hc : panelOpenPattern.Keeps panelCloser := hk.cons
    (fun t => find?_panelOpenPattern_span (s := ['p', 'a', 'n', 'e', 'l']) (by decide) (by decide)
      false t) rfl
  rw [panelReady, ready]
  exact hc.makes.replace_eq fun _ => rfl

theorem panelReady_framed (d : HexDigits 6) (b : Text) :
    panelReady (unlines [panelLead ++ (d.text ++ ['}']), b, panelCloser]) =
      unlines [[], panelReady b, panelCloser] := by
  rw [unlines_cons_cons, panelReady_append_lineFeed, unlines_cons_cons,
    panelReady_append_lineFeed, unlines_singleton, panelReady_opener, panelReady_panelCloser]
  rfl

/-! ## The line between them -/

/-- A pattern that writes no line ends keeps a text within its line. -/
theorem isWithinLine_replace {R : Text → Text → Prop} (hp : p.Turns R)
    (hR : ∀ u v, R u v → ∀ c ∈ v, isWithinLine c) (ht : ∀ c ∈ t, isWithinLine c) :
    ∀ c ∈ p.replace t, isWithinLine c := by
  intro c hc
  by_contra hn
  exact hp.notMem_replaceFrom (fun u v h hm => absurd (hR u v h c hm) hn) true
    (fun hm => hn (ht c hm)) hc

theorem isWithinLine_panelReady (hb : ∀ c ∈ b, isWithinLine c) :
    ∀ c ∈ panelReady b, isWithinLine c := by
  have coloured : ∀ c ∈ colourPattern.replace b, isWithinLine c := by
    refine isWithinLine_replace colourPattern_turns ?_ hb
    rintro u v ⟨rfl, -⟩
    decide
  have linked : ∀ c ∈ linkPattern.replace (colourPattern.replace b), isWithinLine c := by
    refine isWithinLine_replace linkPattern_turns ?_ coloured
    rintro u v ⟨rfl, -⟩
    simp
  have opened := isWithinLine_replace quoteOpenPattern_turns (by
    rintro u v ⟨-, rfl⟩
    decide) linked
  have closed := isWithinLine_replace quoteClosePattern_turns (by
    rintro u v ⟨-, rfl⟩
    simp) opened
  refine isWithinLine_replace panelOpenPattern_turns ?_ closed
  rintro u v ⟨rfl, -⟩
  simp

theorem callouts_framed (hn : c ≠ []) (hc : ∀ x ∈ c, isWithinLine x) :
    callouts [[], c, panelCloser] = [[], noteHead, '>' :: ' ' :: c] := by
  have hb : noteBody? c = some (c, []) :=
    noteBody?_eq_some_iff.mpr ⟨hn, hc, .inl rfl, (List.append_nil _).symm⟩
  have hr : after? panelCloser panelCloser = some [] :=
    after?_eq_some_iff.mpr (List.append_nil _).symm
  rw [callouts_of_noNote (.inl rfl)]
  simp only [callouts, hb, hr, List.append_nil]

theorem convert_of_panelReady (ht : panelReady t = unlines [[], c, panelCloser])
    (hc : ∀ x ∈ c, isWithinLine x) :
    convert t = unlines ((callouts [[], c, panelCloser]).map finished) := by
  refine convert_eq_unlines ht ?_
  simp only [List.forall_mem_cons]
  exact ⟨by simp, fun hm => absurd (hc _ hm) (by decide), by decide, by simp⟩

/-! ## After panels are made -/

theorem finished_nil : finished [] = [] := by
  rw [finished, replace, replaceFrom_nil]
  rfl

/-- Below the head of a note only code spans are converted. -/
theorem finished_prompt (c : Text) :
    finished ('>' :: ' ' :: c) = '>' :: ' ' :: codePattern.replace c := by
  have anywhere : codePattern.Anywhere := fun _ => rfl
  have hk : codePattern.Keeps ['>', ' '] := passes_codePattern.keeps (by decide)
  have hc : codePattern.replace ('>' :: ' ' :: c) = '>' :: ' ' :: codePattern.replace c := by
    rw [replace, replace, anywhere.replaceFrom_true, anywhere.replaceFrom_true]
    exact hk c
  rw [finished, hc]
  rfl

theorem finished_noteHead : finished noteHead = noteHead := by
  have hk : codePattern.Keeps noteHead := passes_codePattern.keeps (by decide)
  rw [finished, hk.makes.replace_eq fun _ => rfl]
  rfl

theorem finished_panelCloser : finished panelCloser = panelCloser := by
  have hk : codePattern.Keeps ['p', 'a', 'n', 'e', 'l', '}'] :=
    passes_codePattern.keeps (by decide)
  have hc : codePattern.Keeps panelCloser :=
    hk.cons (fun t => find?_codePattern_brace (by decide) _ _) rfl
  rw [finished, hc.makes.replace_eq fun _ => rfl]
  rfl

/-- A panel around one line becomes a note of what the rules before panels leave of the line; if
they leave nothing, the two line feeds and the closer stay. -/
theorem convert_framed (d : HexDigits 6) (b : Text) (hb : '\r' ∉ b ∧ '\n' ∉ b) :
    convert (unlines [panelLead ++ (d.text ++ ['}']), b, panelCloser]) =
      if panelReady b = [] then '\n' :: '\n' :: panelCloser
      else '\n' :: (noteHead ++ '\n' :: '>' :: ' ' :: Rule.code.apply (panelReady b)) := by
  have hw : ∀ c ∈ panelReady b, isWithinLine c := by
    refine isWithinLine_panelReady fun c hc => ?_
    have hr : c ≠ '\r' := fun he => hb.1 (he ▸ hc)
    have hl : c ≠ '\n' := fun he => hb.2 (he ▸ hc)
    simp [isWithinLine, hr, hl]
  rw [convert_of_panelReady (panelReady_framed d b) hw]
  split
  · rename_i he
    rw [he, callouts_of_noNote (.inl rfl), callouts_of_noNote (.inl rfl)]
    simp only [callouts, List.map_cons, List.map_nil, finished_nil, finished_panelCloser]
    rfl
  · rename_i hn
    rw [callouts_framed hn hw]
    simp only [List.map_cons, List.map_nil, finished_nil, finished_noteHead, finished_prompt]
    rw [unlines_cons_cons, unlines_cons_cons, unlines_singleton]
    rfl

/-- A list marker stays in a note and a code span does not; a link alone makes no note. -/
theorem convert_framed_quote :
    ('\r' ∉ "\x7bquote\x7d# \x7b\x7ba\x7d\x7d".toList ∧
      '\n' ∉ "\x7bquote\x7d# \x7b\x7ba\x7d\x7d".toList) ∧
    convert (unlines ["\x7bpanel:bgColor=#DEebff\x7d".toList,
        "\x7bquote\x7d# \x7b\x7ba\x7d\x7d".toList, panelCloser]) =
      "\n> [!NOTE]\n> > # `a`".toList ∧
    ('\r' ∉ "[a|b]".toList ∧ '\n' ∉ "[a|b]".toList) ∧
    convert (unlines ["\x7bpanel:bgColor=#DEebff\x7d".toList, "[a|b]".toList, panelCloser]) =
      "\n\n\x7bpanel\x7d".toList := by
  let d : HexDigits 6 := ⟨"DEebff".toList, by decide, by decide⟩
  refine ⟨by decide, ?_, by decide, ?_⟩
  · have ready : panelReady "\x7bquote\x7d# \x7b\x7ba\x7d\x7d".toList =
        "> # \x7b\x7ba\x7d\x7d".toList := by cbv
    have coded : Rule.code.apply "> # \x7b\x7ba\x7d\x7d".toList = "> # `a`".toList := by cbv
    refine (convert_framed d _ (by decide)).trans ?_
    rw [ready, coded]
    rfl
  · have ready : panelReady "[a|b]".toList = [] := by cbv
    refine (convert_framed d _ (by decide)).trans ?_
    rw [ready]
    rfl

end IssueMarkdown.Markup
