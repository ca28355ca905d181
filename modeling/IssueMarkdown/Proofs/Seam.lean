import IssueMarkdown.Markup.Rule
import IssueMarkdown.Proofs.CodeSpan
import IssueMarkdown.Proofs.Colour
import IssueMarkdown.Proofs.LineMarker
import IssueMarkdown.Proofs.Link
import IssueMarkdown.Proofs.Panel
import IssueMarkdown.Proofs.Quote

/-! # Conversion across a line break

Every rule but the one for panels works line by line. A closed panel reaches over one
line break, so a text can be converted in two pieces wherever the second piece does not
begin with a closer by the time panels are closed.
-/

namespace IssueMarkdown.Markup

open Text Pattern

variable {p : Pattern} {r : Rule} {rs : List Rule}

theorem lineLocal_of_mem_patterns (hr : r ≠ .panel) (hp : p ∈ r.patterns) : p.LineLocal := by
  cases r with
  | panel => exact absurd rfl hr
  | status => exact List.mem_singleton.mp hp ▸ lineLocal_colourPattern
  | stripLinks => exact List.mem_singleton.mp hp ▸ lineLocal_linkPattern
  | quotes =>
    rcases List.mem_pair.mp hp with rfl | rfl
    · exact lineLocal_quoteOpenPattern
    · exact lineLocal_quoteClosePattern
  | code => exact List.mem_singleton.mp hp ▸ lineLocal_codePattern
  | numberedLists => exact List.mem_singleton.mp hp ▸ lineLocal_numberPattern
  | heading => exact List.mem_singleton.mp hp ▸ lineLocal_headingPattern

theorem foldl_replace_append_lineFeed {ps : List Pattern} (hps : ∀ p ∈ ps, p.LineLocal)
    (s t : Text) : ps.foldl (fun t p => p.replace t) (s ++ '\n' :: t) =
      ps.foldl (fun t p => p.replace t) s ++ '\n' :: ps.foldl (fun t p => p.replace t) t := by
  induction ps generalizing s t with
  | nil => rfl
  | cons p ps ih =>
    obtain ⟨hp, hps⟩ := List.forall_mem_cons.mp hps
    rw [List.foldl_cons, hp.replace_append, ih hps]
    rfl

theorem apply_append_lineFeed (hr : r ≠ .panel) (s t : Text) :
    r.apply (s ++ '\n' :: t) = r.apply s ++ '\n' :: r.apply t :=
  foldl_replace_append_lineFeed (fun _ hp => lineLocal_of_mem_patterns hr hp) s t

theorem applyAll_append_lineFeed (hrs : .panel ∉ rs) (s t : Text) :
    Rule.applyAll rs (s ++ '\n' :: t) = Rule.applyAll rs s ++ '\n' :: Rule.applyAll rs t := by
  induction rs generalizing s t with
  | nil => rfl
  | cons r rs ih =>
    simp only [List.mem_cons, not_or] at hrs
    show Rule.applyAll rs (r.apply _) = _
    rw [apply_append_lineFeed (Ne.symm hrs.1), ih hrs.2]
    rfl

theorem replace_panelClosePattern_append {t : Text} (ht : after? panelCloser t = none) (s : Text) :
    panelClosePattern.replace (s ++ '\n' :: t) =
      panelClosePattern.replace s ++ '\n' :: panelClosePattern.replace t := by
  have hhead : ∀ m ∈ (lines t).head?, after? panelCloser m = none := by
    intro m hm
    obtain ⟨ls, hls⟩ := List.head?_eq_some_iff.mp hm
    rw [← unlines_lines t, hls, after?_unlines_cons (by decide)] at ht
    simpa using ht
  have hn : ∀ t, callouts (lines t) ≠ [] := fun t => by simp [callouts_eq_nil_iff, lines_ne_nil]
  rw [← unlines_lines (panelClosePattern.replace (s ++ '\n' :: t)), lines_replace_panelClosePattern,
    lines_append_lineFeed, callouts_append hhead, unlines_append (hn s) (hn t)]
  simp only [← lines_replace_panelClosePattern, unlines_lines]

/-- A text as it is when panels are closed: every rule before that, and the openers left out. -/
def panelReady (t : Text) : Text :=
  panelOpenPattern.replace (Rule.applyAll [.status, .stripLinks, .quotes] t)

theorem panelReady_append_lineFeed (s t : Text) :
    panelReady (s ++ '\n' :: t) = panelReady s ++ '\n' :: panelReady t := by
  rw [panelReady, applyAll_append_lineFeed (by decide), lineLocal_panelOpenPattern.replace_append]
  rfl

theorem convert_eq (t : Text) : convert t = Rule.applyAll [.code, .numberedLists, .heading]
    (panelClosePattern.replace (panelReady t)) :=
  rfl

/-- What the rules after panels make of a line. -/
def finished (l : Text) : Text := titled (numbered (codePattern.replace l))

theorem applyAll_unlines {ls : List Text} (hl : ∀ l ∈ ls, '\n' ∉ l) :
    Rule.applyAll [.code, .numberedLists, .heading] (unlines ls) = unlines (ls.map finished) := by
  have hc : ∀ l ∈ ls.map codePattern.replace, '\n' ∉ l :=
    List.forall_mem_map.mpr fun l h => lineLocal_codePattern.lineFeed_notMem_replace (hl l h)
  show headingPattern.replace (numberPattern.replace (codePattern.replace (unlines ls))) = _
  rw [lineLocal_codePattern.replace_unlines, lineLocal_numberPattern.replace_unlines,
    lineLocal_headingPattern.replace_unlines, List.map_map, List.map_map]
  refine congrArg unlines (List.map_congr_left fun l h => ?_)
  have hl' := hc _ (List.mem_map_of_mem h)
  have hn := lineLocal_numberPattern.lineFeed_notMem_replace hl'
  show headingPattern.replace (numberPattern.replace (codePattern.replace l)) = finished l
  rw [replace_headingPattern hn, replace_numberPattern hl']
  rfl

theorem convert_eq_unlines {t : Text} {ls : List Text} (ht : panelReady t = unlines ls)
    (hl : ∀ l ∈ ls, '\n' ∉ l) : convert t = unlines ((callouts ls).map finished) := by
  rw [convert_eq, ht, replace_unlines_panelClosePattern hl,
    applyAll_unlines (lineFeed_notMem_callouts hl)]

theorem convert_append_of_after?_eq_none {t : Text} (h : after? panelCloser (panelReady t) = none)
    (s : Text) : convert (s ++ '\n' :: t) = convert s ++ '\n' :: convert t := by
  rw [convert_eq, panelReady_append_lineFeed, replace_panelClosePattern_append h,
    applyAll_append_lineFeed (by decide)]
  rfl

/-- Two texts one above the other are converted each by itself, unless what comes first in the
lower one closes a panel. -/
theorem convert_append_lineFeed (s t : Text) (h : ¬ panelCloser <+: panelReady t) :
    convert (s ++ '\n' :: t) = convert s ++ '\n' :: convert t :=
  convert_append_of_after?_eq_none (after?_eq_none_iff.mpr h) s

/-- A panel that lies wholly in the lower text is no obstacle. -/
theorem convert_append_lineFeed_panel :
    ¬ panelCloser <+: panelReady "\x7bpanel:bgColor=#DEebff\x7d\nb\n\x7bpanel\x7d".toList ∧
    convert ("h1. \x7b\x7ba\r".toList ++
        '\n' :: "\x7bpanel:bgColor=#DEebff\x7d\nb\n\x7bpanel\x7d".toList) =
      convert "h1. \x7b\x7ba\r".toList ++
        '\n' :: convert "\x7bpanel:bgColor=#DEebff\x7d\nb\n\x7bpanel\x7d".toList := by
  have h : ¬ panelCloser <+:
      panelReady "\x7bpanel:bgColor=#DEebff\x7d\nb\n\x7bpanel\x7d".toList := by
    rw [← after?_eq_none_iff]
    cbv
  exact ⟨h, convert_append_lineFeed _ _ h⟩

end IssueMarkdown.Markup
