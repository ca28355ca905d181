import IssueMarkdown.Markup.Rule
import IssueMarkdown.Proofs.Lines

/-! # Panels

Openers are found anywhere in a line. A closer turns the line above it into a note, so
the second pattern is a machine that reads lines two at a time. The rule is one pass that
leaves out the openers, and then one pass of this machine.
-/

namespace IssueMarkdown.Markup

open Text Pattern

variable {c : Char} {l m t r : Text} {ks ls : List Text}

/-! ## Openers -/

def panelWord : Text :=
  ['{', 'p', 'a', 'n', 'e', 'l', ':', 'b', 'g', 'c', 'o', 'l', 'o', 'r', '=', '#']

/-- A panel opener: the word in either case, then six hexadecimal digits. -/
def PanelOpener (m : Text) : Prop :=
  ∃ w d, w.map Char.toLower = panelWord ∧ d.length = 6 ∧ (∀ c ∈ d, isHex c) ∧ m = w ++ (d ++ ['}'])

theorem panelOpener?_eq_some_iff : panelOpener? t = some r ↔ ∃ m, PanelOpener m ∧ t = m ++ r := by
  simp only [panelOpener?, Option.bind_eq_some_iff, after?_eq_some_iff, afterAnyCase?_eq_some_iff,
    exactly?_eq_some_iff]
  constructor
  · rintro ⟨_, ⟨w, hw, rfl⟩, _, ⟨d, hd, hx, rfl⟩, rfl⟩
    exact ⟨w ++ (d ++ ['}']), ⟨w, d, hw, hd, hx, rfl⟩, by simp⟩
  · rintro ⟨_, ⟨w, d, hw, hd, hx, rfl⟩, rfl⟩
    exact ⟨_, ⟨w, hw, List.append_assoc ..⟩, _, ⟨d, hd, hx, List.append_assoc ..⟩, rfl⟩

theorem panelOpenPattern_turns : panelOpenPattern.Turns fun u v => v = [] ∧ PanelOpener u := by
  intro start t h hit
  obtain ⟨r, hr, rfl⟩ := Option.map_eq_some_iff.mp hit
  obtain ⟨m, hm, rfl⟩ := panelOpener?_eq_some_iff.mp hr
  exact ⟨m, rfl, rfl, hm⟩

theorem PanelOpener.eq_brace_cons (h : PanelOpener m) :
    ∃ c u, m = '{' :: c :: u ∧ c.toLower = 'p' := by
  obtain ⟨w, d, hw, -, -, rfl⟩ := h
  obtain ⟨v, rfl, hv⟩ := Text.eq_brace_cons hw
  obtain ⟨c, u, rfl, hc, -⟩ := List.map_eq_cons_iff.mp hv
  exact ⟨c, _, rfl, hc⟩

theorem PanelOpener.lineFeed_notMem (h : PanelOpener m) : '\n' ∉ m := by
  obtain ⟨w, d, hw, -, hx, rfl⟩ := h
  have := notMem_of_map_toLower (x := '\n') hw (by decide)
  have hd : '\n' ∉ d := fun hm => absurd (hx _ hm) (by decide)
  simp [this, hd]

theorem lineLocal_panelOpenPattern : panelOpenPattern.LineLocal where
  breaksLine := rfl
  find?_append := find?_append_of_stopsAt (fun _ _ => rfl)
    ((stopsAt_afterBy? (by decide)).bind ((stopsAt_exactly? rfl).bind (stopsAt_after? (by decide))))
  count_replace := panelOpenPattern_turns.count_replaceFrom fun u v h => by
    obtain ⟨rfl, hu⟩ := h
    rw [List.count_eq_zero.mpr hu.lineFeed_notMem]
    rfl

theorem passes_panelOpenPattern : panelOpenPattern.PassesBut ['{', '\n'] := by
  refine panelOpenPattern_turns.passesBut ?_ (by simp [panelOpenPattern, isLineFeed])
  rintro u v ⟨-, hm⟩
  obtain ⟨d, w, rfl, -⟩ := hm.eq_brace_cons
  exact ⟨'{', by simp, _, rfl⟩

theorem PanelOpener.exists_body (h : PanelOpener m) : ∃ b, m = b ++ ['}'] ∧ '}' ∉ b ∧ ':' ∈ b := by
  obtain ⟨w, d, hw, -, hx, rfl⟩ := h
  have hwb := notMem_of_map_toLower (x := '}') hw (by decide)
  have hd : '}' ∉ d := fun hm => absurd (hx _ hm) (by decide)
  have hc : ':' ∈ w := by
    have hm : ':' ∈ w.map Char.toLower := hw ▸ (by decide)
    obtain ⟨c, hc, hl⟩ := List.mem_map.mp hm
    exact eq_of_toLower_eq rfl hl ▸ hc
  exact ⟨w ++ d, by simp, by simp [hwb, hd], List.mem_append_left d hc⟩

theorem find?_panelOpenPattern_brace (h : c.toLower ≠ 'p') (start : Bool) (t : Text) :
    panelOpenPattern.find? start ('{' :: c :: t) = none := by
  refine panelOpenPattern_turns.find?_eq_none ?_ start
  rintro m v r ⟨-, hm⟩ he
  obtain ⟨d, u, rfl, hd⟩ := hm.eq_brace_cons
  obtain ⟨rfl, -⟩ := List.cons.inj (List.cons.inj he).2
  exact h hd

theorem find?_panelOpenPattern_span {s : Text} (hb : '}' ∉ s) (hc : ':' ∉ s) (start : Bool)
    (t : Text) : panelOpenPattern.find? start ('{' :: (s ++ '}' :: t)) = none := by
  refine panelOpenPattern_turns.find?_eq_none ?_ start
  rintro m v r ⟨-, hm⟩ he
  obtain ⟨b, rfl, hbb, hv⟩ := hm.exists_body
  rw [List.append_assoc, ← List.cons_append] at he
  obtain ⟨rfl, -⟩ := first_split_unique (by simpa using hb) hbb he
  simp [hc] at hv

theorem find?_panelOpenPattern_opener (hm : PanelOpener m) (start : Bool) (t : Text) :
    panelOpenPattern.find? start (m ++ t) = some ⟨[], t⟩ := by
  have hr : panelOpener? (m ++ t) = some t := panelOpener?_eq_some_iff.mpr ⟨m, hm, rfl⟩
  simp [panelOpenPattern, hr]

theorem PanelOpener.length_eq (h : PanelOpener m) : m.length = 23 := by
  obtain ⟨w, d, hw, hd, -, rfl⟩ := h
  have hl : w.length = panelWord.length := by rw [← hw, List.length_map]
  simp only [List.length_append, List.length_singleton, hl, hd]
  rfl

instance : DecidablePred PanelOpener := fun m =>
  decidable_of_iff (panelOpener? m = some []) <| by
    rw [panelOpener?_eq_some_iff]
    constructor
    · rintro ⟨m', hm, rfl⟩
      rwa [List.append_nil]
    · exact fun hm => ⟨m, hm, (List.append_nil m).symm⟩

/-- The text with its panel openers left out, in one pass from the left. -/
def withoutOpeners : Text → Text
  | [] => []
  | c :: t =>
    if PanelOpener ((c :: t).take 23) then withoutOpeners (t.drop 22) else c :: withoutOpeners t
termination_by t => t.length

theorem replaceFrom_panelOpenPattern (start : Bool) (t : Text) :
    panelOpenPattern.replaceFrom start t = withoutOpeners t := by
  fun_induction withoutOpeners t generalizing start with
  | case1 => exact replaceFrom_nil ..
  | case2 c t hm ih =>
    have found : panelOpenPattern.find? start (c :: t) = some ⟨[], t.drop 22⟩ := by
      have := find?_panelOpenPattern_opener hm start ((c :: t).drop 23)
      rwa [List.take_append_drop] at this
    rw [replaceFrom_of_find? found]
    exact ih false
  | case3 c t hn ih =>
    have missed : panelOpenPattern.find? start (c :: t) = none := by
      refine panelOpenPattern_turns.find?_eq_none ?_ start
      rintro m v r ⟨-, hm⟩ he
      rw [he, ← hm.length_eq, List.take_left] at hn
      exact hn hm
    rw [replaceFrom_cons missed, ih]

/-! ## Closers -/

/-- What may stand between a line and its line feed: a carriage return or nothing. -/
def carriage? : Text → Option Text
  | [] => some []
  | ['\r'] => some ['\r']
  | _ => none

/-- The content of a line that can become a note, and the carriage return at its end. -/
def noteBody? (l : Text) : Option (Text × Text) :=
  if (l.takeWhile isWithinLine).isEmpty then none
  else (carriage? (l.dropWhile isWithinLine)).map (l.takeWhile isWithinLine, ·)

/-- The lines after every line above a closer has become a note. -/
def callouts : List Text → List Text
  | l :: m :: ls =>
    match noteBody? l, after? panelCloser m with
    | some (c, cr), some r => (noteHead ++ cr) :: ('>' :: ' ' :: (c ++ r)) :: callouts ls
    | _, _ => l :: callouts (m :: ls)
  | ls => ls

/-- The line `m` does not make a note of the line `l` above it. -/
def NoNote (l m : Text) : Prop := noteBody? l = none ∨ after? panelCloser m = none

theorem noNote_iff : NoNote l m ↔
    ∀ c cr r, noteBody? l = some (c, cr) → after? panelCloser m = some r → False := by
  unfold NoNote
  rcases noteBody? l with _ | ⟨c, cr⟩ <;> cases after? panelCloser m <;> simp

theorem callouts_of_noNote (h : NoNote l m) (ls : List Text) :
    callouts (l :: m :: ls) = l :: callouts (m :: ls) := by
  rw [callouts]
  split
  · rename_i hb hr
    exact (noNote_iff.mp h _ _ _ hb hr).elim
  · rfl

theorem atLineStart_panelClosePattern : panelClosePattern.AtLineStart := fun _ => rfl

theorem lineBreak?_append {d : Text} (hd : '\n' ∉ d) (t : Text) :
    lineBreak? (d ++ '\n' :: t) = (carriage? d).map fun cr => (cr ++ ['\n'], t) := by
  rcases d with _ | ⟨a, _ | ⟨b, d⟩⟩
  · rfl
  · by_cases ha : a = '\r'
    · subst ha
      rfl
    · simp only [List.mem_singleton] at hd
      simp [lineBreak?, carriage?, ha, Ne.symm hd]
  · simp only [List.mem_cons, not_or] at hd
    simp only [List.cons_append, lineBreak?]
    split
    · rename_i he
      exact absurd (List.cons.inj he).1.symm hd.1
    · rename_i he
      obtain ⟨-, he⟩ := List.cons.inj he
      exact absurd (List.cons.inj he).1.symm hd.2.1
    · simp [carriage?]

theorem panelBody?_append (hl : '\n' ∉ l) (t : Text) : panelBody? (l ++ '\n' :: t) =
    (noteBody? l).bind fun (c, cr) => (after? panelCloser t).map fun r =>
      ⟨noteHead ++ (cr ++ ['\n']) ++ ['>', ' '] ++ c, r⟩ := by
  have hd : '\n' ∉ l.dropWhile isWithinLine := fun hm => hl ((List.dropWhile_suffix _).mem hm)
  rw [panelBody?, noteBody?, takeWhile_append_cons rfl, dropWhile_append_cons rfl,
    lineBreak?_append hd]
  split
  · rfl
  · cases carriage? (l.dropWhile isWithinLine) <;> rfl

theorem panelBody?_of_notMem (hl : '\n' ∉ l) : panelBody? l = none := by
  have hd : lineBreak? (l.dropWhile isWithinLine) = none := by
    have hm : '\n' ∉ l.dropWhile isWithinLine := fun hm => hl ((List.dropWhile_suffix _).mem hm)
    unfold lineBreak?
    split <;> simp_all
  simp [panelBody?, hd]

theorem after?_unlines_cons {lead : Text} (h : '\n' ∉ lead) (m : Text) (ls : List Text) :
    after? lead (unlines (m :: ls)) = (after? lead m).map fun r => unlines (r :: ls) := by
  by_cases hn : ls = []
  · subst hn
    simp
  · simp only [unlines_cons hn, stopsAt_after? h m]

theorem callouts_eq_nil_iff : callouts ls = [] ↔ ls = [] := by
  fun_cases callouts ls with
  | case1 => simp
  | case2 => simp
  | case3 => rfl

/-- After a hit the rest of its line is read without one. -/
theorem replaceFrom_unlines_panelClosePattern (hr : '\n' ∉ r)
    (ih : panelClosePattern.replace (unlines ls) = unlines (callouts ls)) :
    panelClosePattern.replaceFrom false (unlines (r :: ls)) = unlines (r :: callouts ls) := by
  have hb : ∀ c ∈ r, panelClosePattern.breaksLine c = false := isLineFeed_eq_false hr
  by_cases hn : ls = []
  · subst hn
    exact atLineStart_panelClosePattern.replaceFrom_false (by simpa using hb)
  · rw [unlines_cons hn, atLineStart_panelClosePattern.replaceFrom_append hb, replaceFrom_cons rfl,
      unlines_cons (by simpa [callouts_eq_nil_iff] using hn), ← ih]
    rfl

/-- The second pattern of panels, line by line. -/
theorem replace_unlines_panelClosePattern (h : ∀ l ∈ ls, '\n' ∉ l) :
    panelClosePattern.replace (unlines ls) = unlines (callouts ls) := by
  fun_induction callouts ls with
  | case1 l m ls c cr r hr hb ih =>
    obtain ⟨hl, hm, h⟩ : '\n' ∉ l ∧ '\n' ∉ m ∧ ∀ l ∈ ls, '\n' ∉ l := by simpa using h
    have hr' : '\n' ∉ r := by
      rw [after?_eq_some_iff.mp hr, List.mem_append, not_or] at hm
      exact hm.2
    have found : panelClosePattern.find? true (unlines (l :: m :: ls)) =
        some ⟨noteHead ++ (cr ++ ['\n']) ++ ['>', ' '] ++ c, unlines (r :: ls)⟩ := by
      rw [unlines_cons_cons]
      show panelBody? _ = _
      rw [panelBody?_append hl, after?_unlines_cons (by decide), hb, hr]
      rfl
    calc panelClosePattern.replace (unlines (l :: m :: ls))
        = (noteHead ++ (cr ++ ['\n']) ++ ['>', ' '] ++ c) ++ unlines (r :: callouts ls) := by
          rw [replace, replaceFrom_of_find? found, replaceFrom_unlines_panelClosePattern hr' (ih h)]
      _ = noteHead ++ cr ++ '\n' :: ('>' :: ' ' :: c ++ unlines (r :: callouts ls)) := by simp
      _ = unlines ((noteHead ++ cr) :: ('>' :: ' ' :: (c ++ r)) :: callouts ls) := by
          rw [append_unlines_cons, unlines_cons_cons]
          rfl
  | case2 l m ls hn ih =>
    obtain ⟨hl, h⟩ : '\n' ∉ l ∧ ∀ k ∈ m :: ls, '\n' ∉ k := List.forall_mem_cons.mp h
    have missed : panelClosePattern.find? true (l ++ '\n' :: unlines (m :: ls)) = none := by
      show panelBody? _ = _
      rw [panelBody?_append hl, after?_unlines_cons (by decide)]
      rcases noNote_iff.mpr hn with hb | hr
      · rw [hb]
        rfl
      · rw [hr]
        cases noteBody? l <;> rfl
    have hc : callouts (m :: ls) ≠ [] := by simp [callouts_eq_nil_iff]
    rw [unlines_cons_cons, replace, atLineStart_panelClosePattern.replaceFrom_append_of_miss
      (isLineFeed_eq_false hl) missed, unlines_cons hc, ← ih h]
    rfl
  | case3 ls hn =>
    rcases ls with _ | ⟨l, _ | ⟨m, ls⟩⟩
    · exact replaceFrom_nil ..
    · have hl : '\n' ∉ l := by simpa using h
      rw [unlines_singleton, atLineStart_panelClosePattern.replace_of_miss
        (panelBody?_of_notMem hl) (isLineFeed_eq_false hl)]
    · exact (hn l m ls rfl).elim

theorem carriage?_eq_some_iff {d cr : Text} :
    carriage? d = some cr ↔ (cr = [] ∨ cr = ['\r']) ∧ d = cr := by
  unfold carriage?
  split
  · simp only [Option.some.injEq]
    constructor
    · rintro rfl
      exact ⟨.inl rfl, rfl⟩
    · exact fun h => h.2
  · simp only [Option.some.injEq]
    constructor
    · rintro rfl
      exact ⟨.inr rfl, rfl⟩
    · exact fun h => h.2
  · rename_i hn hc
    simp only [reduceCtorEq, false_iff]
    rintro ⟨rfl | rfl, rfl⟩
    · exact hn rfl
    · exact hc rfl

theorem noteBody?_eq_some_iff {cr : Text} : noteBody? l = some (m, cr) ↔
    m ≠ [] ∧ (∀ c ∈ m, isWithinLine c) ∧ (cr = [] ∨ cr = ['\r']) ∧ l = m ++ cr := by
  simp only [noteBody?, Option.ite_none_left_eq_some, Option.map_eq_some_iff, Prod.mk.injEq,
    carriage?_eq_some_iff, List.isEmpty_iff]
  constructor
  · rintro ⟨hn, _, ⟨hcr, he⟩, rfl, rfl⟩
    refine ⟨hn, fun c hc => List.mem_takeWhile_imp hc, hcr, ?_⟩
    rw [← he, List.takeWhile_append_dropWhile]
  · rintro ⟨hn, hm, hcr, rfl⟩
    have hs : ∀ c ∈ cr.head?, isWithinLine c = false := by
      rcases hcr with rfl | rfl <;> simp [isWithinLine]
    have ht : (m ++ cr).takeWhile isWithinLine = m := by
      rw [List.takeWhile_append_of_pos hm]
      rcases hcr with rfl | rfl <;> simp [isWithinLine]
    rw [ht, dropWhile_append_of_stop hm hs]
    exact ⟨hn, cr, ⟨hcr, rfl⟩, rfl, rfl⟩

/-- Text without line ends at the front of a line does not decide whether it ends well. -/
theorem noteBody?_append (hn : m ≠ []) (hm : ∀ c ∈ m, isWithinLine c) (r : Text) :
    noteBody? (m ++ r) =
      (carriage? (r.dropWhile isWithinLine)).map (m ++ r.takeWhile isWithinLine, ·) := by
  rw [noteBody?, List.takeWhile_append_of_pos hm, List.dropWhile_append_of_pos hm]
  simp [hn]

theorem callouts_append (h : ∀ m ∈ ls.head?, after? panelCloser m = none) :
    callouts (ks ++ ls) = callouts ks ++ callouts ls := by
  fun_induction callouts ks with
  | case1 l m ks c cr r hr hb ih =>
    simp only [List.cons_append, callouts, hb, hr, ih]
  | case2 l m ks hn ih =>
    rw [List.cons_append, List.cons_append, callouts_of_noNote (noNote_iff.mpr hn)]
    exact congrArg _ ih
  | case3 ks hn =>
    rcases ks with _ | ⟨l, _ | ⟨m, ks⟩⟩
    · rfl
    · cases ls with
      | nil => rfl
      | cons m ls => exact callouts_of_noNote (.inr (h m rfl)) ls
    · exact (hn l m ks rfl).elim

/-- Nothing changes exactly where no line makes a note of the line above it. -/
theorem callouts_eq_self_iff : callouts ls = ls ↔ ls.IsChain NoNote := by
  fun_induction callouts ls with
  | case1 l m ls c cr r hr hb ih =>
    simp only [List.isChain_cons_cons, NoNote, hb, hr, reduceCtorEq, or_self, false_and, iff_false]
    intro he
    have hm := (List.cons.inj (List.cons.inj he).2).1
    rw [after?_eq_some_iff.mp hr] at hm
    exact absurd (List.cons.inj hm).1 (by decide)
  | case2 l m ls hn ih =>
    rw [List.isChain_cons_cons, ← ih]
    simp [noNote_iff.mpr hn]
  | case3 ls hn =>
    rcases ls with _ | ⟨l, _ | ⟨m, ls⟩⟩
    · simp
    · simp
    · exact (hn l m ls rfl).elim

theorem lineFeed_notMem_callouts (h : ∀ l ∈ ls, '\n' ∉ l) : ∀ l ∈ callouts ls, '\n' ∉ l := by
  fun_induction callouts ls with
  | case1 l m ls c cr r hr hb ih =>
    obtain ⟨hl, hm, h⟩ : '\n' ∉ l ∧ '\n' ∉ m ∧ ∀ l ∈ ls, '\n' ∉ l := by simpa using h
    rw [after?_eq_some_iff.mp hr, List.mem_append, not_or] at hm
    rw [(noteBody?_eq_some_iff.mp hb).2.2.2, List.mem_append, not_or] at hl
    simp only [List.forall_mem_cons]
    exact ⟨by simp [noteHead, hl.2], by simp [hl.1, hm.2], ih h⟩
  | case2 l m ls hn ih =>
    obtain ⟨hl, h⟩ := List.forall_mem_cons.mp h
    exact List.forall_mem_cons.mpr ⟨hl, ih h⟩
  | case3 ls hn => exact h

theorem lines_replace_panelClosePattern (t : Text) :
    lines (panelClosePattern.replace t) = callouts (lines t) := by
  have hl : ∀ l ∈ lines t, '\n' ∉ l := fun _ => notMem_of_mem_lines
  conv_lhs => rw [← unlines_lines t, replace_unlines_panelClosePattern hl]
  exact lines_unlines (by simpa [callouts_eq_nil_iff] using lines_ne_nil t)
    (lineFeed_notMem_callouts hl)

theorem replace_panelClosePattern_eq_self_iff :
    panelClosePattern.replace t = t ↔ (lines t).IsChain NoNote := by
  rw [← callouts_eq_self_iff, ← lines_replace_panelClosePattern]
  exact lines_injective.eq_iff.symm

theorem lineBreak?_sound {br : Text} (h : lineBreak? t = some (br, r)) : t = br ++ r := by
  unfold lineBreak? at h
  split at h
  · obtain ⟨rfl, rfl⟩ := Prod.mk.inj (Option.some.inj h)
    rfl
  · obtain ⟨rfl, rfl⟩ := Prod.mk.inj (Option.some.inj h)
    rfl
  · simp at h

theorem panelClosePattern_turns : panelClosePattern.Turns fun u v =>
    ∃ c br, u = c ++ br ++ panelCloser ∧ v = noteHead ++ br ++ ['>', ' '] ++ c := by
  intro start t h hit
  cases start with
  | false => simp [panelClosePattern] at hit
  | true =>
    replace hit : panelBody? t = some h := hit
    unfold panelBody? at hit
    split at hit
    · simp at hit
    · obtain ⟨⟨br, s⟩, hs, hb⟩ := Option.bind_eq_some_iff.mp hit
      obtain ⟨r, hr, rfl⟩ := Option.map_eq_some_iff.mp hb
      refine ⟨t.takeWhile isWithinLine ++ br ++ panelCloser, ?_, _, br, rfl, rfl⟩
      calc t = t.takeWhile isWithinLine ++ t.dropWhile isWithinLine :=
            List.takeWhile_append_dropWhile.symm
        _ = t.takeWhile isWithinLine ++ (br ++ (panelCloser ++ r)) := by
            rw [lineBreak?_sound hs, after?_eq_some_iff.mp hr]
        _ = _ := by simp

/-! ## The rule -/

/-- The rule leaves out the openers and then reads the lines once: a line above one that begins
with a closer becomes the head of a note, its text goes before what follows the closer, and the
machine goes on below; any other line stays. -/
theorem apply_panel_eq_callouts (t : Text) :
    Rule.panel.apply t = unlines (callouts (lines (withoutOpeners t))) := by
  have opened : panelOpenPattern.replace t = withoutOpeners t := replaceFrom_panelOpenPattern true t
  calc Rule.panel.apply t
      = panelClosePattern.replace (panelOpenPattern.replace t) := rfl
    _ = unlines (lines (panelClosePattern.replace (withoutOpeners t))) := by
        rw [opened, unlines_lines]
    _ = unlines (callouts (lines (withoutOpeners t))) := by rw [lines_replace_panelClosePattern]

/-- A closer may be the text of a note, and then closes none itself. -/
example : callouts [panelCloser, panelCloser ++ ['a'], panelCloser] =
    [noteHead, '>' :: ' ' :: (panelCloser ++ ['a']), panelCloser] := rfl

end IssueMarkdown.Markup
