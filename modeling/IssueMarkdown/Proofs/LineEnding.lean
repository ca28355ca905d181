import IssueMarkdown.Proofs.Seam

/-! # Line endings

Two runs of conversion are compared, on a text whose lines end in line feeds alone and on the
same text with carriage returns before some of them. Every rule leaves the carriage returns
where they are, at the ends of the same lines, and does to the lines before them what it does
without them.
-/

namespace IssueMarkdown.Markup

open Text Pattern

variable {e l s t : Text} {es ls ms : List Text} {p : Pattern} {r : Rule}

/-- Every carriage return stands right before a line feed. -/
def CarriagesPaired (t : Text) : Prop := ∀ s r, t = s ++ '\r' :: r → r.head? = some '\n'

def dropCarriages (t : Text) : Text := t.filter (· != '\r')

/-- The line breaks of a text in order, each with the carriage return it may have. -/
def lineBreaks (t : Text) : List Text :=
  (lines t).dropLast.map fun l => if l.getLast? = some '\r' then ['\r', '\n'] else ['\n']

/-! ## Lines and their ends -/

/-- What may stand between a line and its line feed. -/
def IsLineEnd (e : Text) : Prop := e = [] ∨ e = ['\r']

/-- Lines without carriage returns, and the same lines with their ends. -/
inductive Ended : List Text → List Text → List Text → Prop where
  | nil : Ended [] [] []
  | cons {e l : Text} {es ls ms : List Text} (he : IsLineEnd e) (hl : '\r' ∉ l)
      (h : Ended es ls ms) : Ended (e :: es) (l :: ls) ((l ++ e) :: ms)

theorem Ended.eq_nil_iff (h : Ended es ls ms) : ms = [] ↔ ls = [] := by
  cases h <;> simp

theorem dropCarriages_of_notMem (h : '\r' ∉ l) : dropCarriages l = l := by
  refine List.filter_eq_self.mpr fun c hc => ?_
  simpa using fun he : c = '\r' => h (he ▸ hc)

theorem dropCarriages_append (s t : Text) :
    dropCarriages (s ++ t) = dropCarriages s ++ dropCarriages t :=
  List.filter_append ..

theorem dropCarriages_append_lineEnd (he : IsLineEnd e) (hl : '\r' ∉ l) :
    dropCarriages (l ++ e) = l := by
  rw [dropCarriages_append, dropCarriages_of_notMem hl]
  rcases he with rfl | rfl
  · exact List.append_nil l
  · exact List.append_nil l

theorem Ended.dropCarriages_unlines (h : Ended es ls ms) :
    dropCarriages (unlines ms) = unlines ls := by
  induction h with
  | nil => rfl
  | @cons e l es ls ms he hl h ih =>
    by_cases hn : ls = []
    · rw [h.eq_nil_iff.mpr hn, hn, unlines_singleton, unlines_singleton,
        dropCarriages_append_lineEnd he hl]
    · rw [unlines_cons hn, unlines_cons (h.eq_nil_iff.not.mpr hn), dropCarriages_append,
        dropCarriages_append_lineEnd he hl, ← ih]
      rfl

theorem CarriagesPaired.append (hl : '\r' ∉ l) (ht : CarriagesPaired t) :
    CarriagesPaired (l ++ t) := by
  intro s r hs
  rcases List.append_eq_append_iff.mp hs with ⟨u, rfl, hu⟩ | ⟨u, rfl, hu⟩
  · exact ht u r hu
  · cases u with
    | nil => exact ht [] r hu.symm
    | cons c u =>
      obtain ⟨rfl, -⟩ := List.cons.inj hu
      simp at hl

theorem carriagesPaired_of_notMem (hl : '\r' ∉ l) : CarriagesPaired l := by
  rintro s r rfl
  simp at hl

theorem CarriagesPaired.append_break (he : IsLineEnd e) (hl : '\r' ∉ l)
    (ht : CarriagesPaired t) : CarriagesPaired (l ++ e ++ '\n' :: t) := by
  have hb : CarriagesPaired ('\n' :: t) := ht.append (l := ['\n']) (by decide)
  rw [List.append_assoc]
  refine CarriagesPaired.append hl ?_
  rcases he with rfl | rfl
  · exact hb
  · rintro s r hs
    cases s with
    | nil =>
      obtain ⟨-, rfl⟩ := List.cons.inj hs
      rfl
    | cons c s => exact hb s r (List.cons.inj hs).2

theorem Ended.carriagesPaired (h : Ended es ls ms) (hlast : es.getLast? = some []) :
    CarriagesPaired (unlines ms) := by
  induction h with
  | nil => simp at hlast
  | @cons e l es ls ms he hl h ih =>
    cases h with
    | nil =>
      obtain rfl : e = [] := by simpa using hlast
      rw [unlines_singleton, List.append_nil]
      exact carriagesPaired_of_notMem hl
    | cons he' hl' h' =>
      rw [unlines_cons_cons]
      exact .append_break he hl (ih (by simpa using hlast))

theorem Ended.map_break (h : Ended es ls ms) :
    (ms.map fun l => if l.getLast? = some '\r' then ['\r', '\n'] else ['\n']) =
      es.map (· ++ ['\n']) := by
  induction h with
  | nil => rfl
  | @cons e l es ls ms he hl h ih =>
    rw [List.map_cons, List.map_cons, ih]
    congr 1
    rcases he with rfl | rfl
    · rw [List.append_nil, if_neg fun hm => hl (List.mem_of_getLast? hm)]
      rfl
    · rw [List.getLast?_concat, if_pos rfl]
      rfl

theorem Ended.lineBreaks_eq (h : Ended es ls (lines t)) :
    lineBreaks t = (es.map (· ++ ['\n'])).dropLast := by
  rw [lineBreaks, ← h.map_break, List.map_dropLast]

theorem exists_ended (h : CarriagesPaired t) :
    ∃ es, es.getLast? = some [] ∧ Ended es (lines (dropCarriages t)) (lines t) := by
  induction t using line_induction with
  | last l hl =>
    have hr : '\r' ∉ l := by
      intro hm
      obtain ⟨s, r, rfl⟩ := List.append_of_mem hm
      have hn := List.mem_of_head? (h s r rfl)
      exact hl (List.mem_append_right _ (List.mem_cons_of_mem _ hn))
    refine ⟨[[]], rfl, ?_⟩
    rw [dropCarriages_of_notMem hr, lines_of_notMem hl]
    simpa using Ended.cons (.inl rfl) hr .nil
  | more l t hl ih =>
    have ht : CarriagesPaired t := by
      rintro s r rfl
      exact h (l ++ '\n' :: s) r (by simp)
    obtain ⟨es, hlast, hes⟩ := ih ht
    obtain ⟨a, e, ha, he, rfl⟩ : ∃ a e, '\r' ∉ a ∧ IsLineEnd e ∧ l = a ++ e := by
      by_cases hm : '\r' ∈ l
      · obtain ⟨a, b, rfl, ha⟩ := List.eq_append_cons_of_mem hm
        -- the line feed that has to follow can only be the one that ends the line
        have hb := h a (b ++ '\n' :: t) (by simp)
        cases b with
        | nil => exact ⟨a, ['\r'], ha, .inr rfl, rfl⟩
        | cons c b =>
          obtain rfl : c = '\n' := by simpa using hb
          simp at hl
      · exact ⟨l, [], hm, .inl rfl, by simp⟩
    refine ⟨e :: es, by cases es <;> simp_all, ?_⟩
    have hla : '\n' ∉ a := fun hm => hl (List.mem_append_left _ hm)
    have hd : dropCarriages (a ++ e ++ '\n' :: t) = a ++ '\n' :: dropCarriages t := by
      rw [dropCarriages_append, dropCarriages_append_lineEnd he ha]
      rfl
    rw [hd, lines_cons hl, lines_cons hla]
    exact .cons he ha hes

/-! ## Patterns and line ends -/

/-- A carriage return at the end changes no hit, and none is brought in. -/
structure CarriesEnds (p : Pattern) : Prop where
  ignores : p.Ignores ['\r']
  notMem : ∀ l, '\r' ∉ l → '\r' ∉ p.replace l

theorem CarriesEnds.of_turns {R : Text → Text → Prop} (hi : p.Ignores ['\r']) (ht : p.Turns R)
    (hR : ∀ u v, R u v → '\r' ∈ v → '\r' ∈ u) : CarriesEnds p :=
  ⟨hi, fun _ hl => ht.notMem_replaceFrom hR true hl⟩

theorem CarriesEnds.replace_append (hp : CarriesEnds p) (he : IsLineEnd e) (l : Text) :
    p.replace (l ++ e) = p.replace l ++ e := by
  rcases he with rfl | rfl
  · rw [List.append_nil, List.append_nil]
  · rw [replace, hp.ignores.replaceFrom_append, replaceFrom_nil]
    rfl

theorem Ended.map_replace (hp : CarriesEnds p) (h : Ended es ls ms) :
    Ended es (ls.map p.replace) (ms.map p.replace) := by
  induction h with
  | nil => exact .nil
  | @cons e l es ls ms he hl _ ih =>
    rw [List.map_cons, List.map_cons, hp.replace_append he]
    exact .cons he (hp.notMem l hl) ih

theorem carriesEnds_colourPattern : CarriesEnds colourPattern := by
  refine .of_turns (ignores_of_recognised (fun _ _ => rfl) fun s => ?_) colourPattern_turns ?_
  · have hc : ∀ s, colour? (s ++ ['\r']) = (colour? s).map (· ++ ['\r']) := by
      refine append_singleton_of_marker (fun _ _ => colour?_eq_some_iff) fun m hm => ?_
      obtain ⟨b, rfl, -⟩ := hm.exists_body
      exact ⟨b, '}', rfl, by decide⟩
    have hs : ∀ s, dropStar (s ++ ['\r']) = dropStar s ++ ['\r'] := fun s =>
      dropStar_append (by decide) s []
    rw [starredColour?, hs, hc, starredColour?, Option.map_map, Option.map_map]
    congr 1
    funext r
    exact hs r
  · rintro u v ⟨rfl, -⟩ hm
    exact absurd hm (by decide)

theorem carriesEnds_linkPattern : CarriesEnds linkPattern := by
  refine .of_turns (ignores_of_recognised (f := fun t => (link? t).or (mention? t))
    (fun _ _ => rfl) ?_) linkPattern_turns ?_
  · refine append_singleton_of_marker (fun _ _ => linkMark_eq_some_iff) fun m hm => ?_
    obtain ⟨b, rfl, -⟩ := hm.exists_body
    exact ⟨'[' :: b, ']', rfl, by decide⟩
  · rintro u v ⟨rfl, -⟩ hm
    exact absurd hm (by decide)

theorem after?_append_carriage {lead : Text} (h : '\r' ∉ lead) (s : Text) :
    after? lead (s ++ ['\r']) = (after? lead s).map (· ++ ['\r']) :=
  stopsAt_after? h s []

theorem carriesEnds_quoteOpenPattern : CarriesEnds quoteOpenPattern := by
  refine .of_turns (breakLocal_quoteOpenPattern.ignores '\r' [] (.inr rfl))
    quoteOpenPattern_turns ?_
  rintro u v ⟨-, rfl⟩ hm
  exact absurd hm (by decide)

theorem carriesEnds_quoteClosePattern : CarriesEnds quoteClosePattern := by
  refine .of_turns (breakLocal_quoteClosePattern.ignores '\r' [] (.inr rfl))
    quoteClosePattern_turns ?_
  rintro u v ⟨-, rfl⟩ hm
  exact absurd hm (by decide)

theorem carriesEnds_panelOpenPattern : CarriesEnds panelOpenPattern := by
  refine .of_turns (ignores_of_recognised (fun _ _ => rfl) ?_) panelOpenPattern_turns ?_
  · refine append_singleton_of_marker (fun _ _ => panelOpener?_eq_some_iff) fun m hm => ?_
    obtain ⟨b, rfl, -⟩ := hm.exists_body
    exact ⟨b, '}', rfl, by decide⟩
  · rintro u v ⟨rfl, -⟩ hm
    exact absurd hm (by decide)

theorem carriesEnds_codePattern : CarriesEnds codePattern := by
  refine .of_turns (ignores_codePattern (.inr ⟨rfl, rfl⟩)) codePattern_turns ?_
  rintro u v ⟨s, -, -, rfl, rfl⟩ hm
  simpa using hm

theorem carriesEnds_numberPattern : CarriesEnds numberPattern := by
  refine .of_turns (ignores_of_recognised_start (fun _ _ => rfl)
    (after?_append_carriage (by decide))) numberPattern_turns ?_
  rintro u v ⟨-, rfl⟩ hm
  exact absurd hm (by decide)

theorem carriesEnds_headingPattern : CarriesEnds headingPattern := by
  refine .of_turns (ignores_headingPattern (.inr rfl) []) headingPattern_turns ?_
  rintro u v ⟨d, b, -, -, -, rfl, rfl⟩ hm
  simp at hm

/-! ## Notes and line ends -/

theorem noteBody?_append_lineEnd (he : IsLineEnd e) (hr : '\r' ∉ l) (hn : '\n' ∉ l) :
    noteBody? (l ++ e) = if l = [] then none else some (l, e) := by
  have hw : ∀ c ∈ l, isWithinLine c := by
    intro c hc
    have hcr : c ≠ '\r' := fun h => hr (h ▸ hc)
    have hcn : c ≠ '\n' := fun h => hn (h ▸ hc)
    simp [isWithinLine, hcr, hcn]
  split_ifs with h
  · subst h
    rcases he with rfl | rfl <;> rfl
  · exact noteBody?_eq_some_iff.mpr ⟨h, hw, he, rfl⟩

theorem after?_append_lineEnd {lead : Text} (h : '\r' ∉ lead) (he : IsLineEnd e) (l : Text) :
    after? lead (l ++ e) = (after? lead l).map (· ++ e) := by
  rcases he with rfl | rfl
  · simp
  · exact after?_append_carriage h l

theorem NoNote.append_lineEnds {e' m : Text} (he : IsLineEnd e) (he' : IsLineEnd e')
    (hr : '\r' ∉ l) (hn : '\n' ∉ l) (h : NoNote l m) : NoNote (l ++ e) (m ++ e') := by
  have hl := noteBody?_append_lineEnd (.inl rfl) hr hn
  rw [List.append_nil] at hl
  rcases h with h | h
  · left
    rw [hl] at h
    rw [noteBody?_append_lineEnd he hr hn]
    split_ifs at h ⊢
    rfl
  · right
    rw [after?_append_lineEnd (by decide) he', h]
    rfl

theorem Ended.callouts (h : Ended es ls ms) (hn : ∀ l ∈ ls, '\n' ∉ l) :
    Ended es (callouts ls) (callouts ms) := by
  fun_induction Markup.callouts ls generalizing es ms with
  | case1 l m ls c cr r hr hb ih =>
    obtain _ | @⟨e, _, _, _, _, he, hl, _ | @⟨e', _, es, _, ms, he', hm, h⟩⟩ := h
    obtain ⟨hnl, -, hn⟩ : '\n' ∉ l ∧ '\n' ∉ m ∧ ∀ l ∈ ls, '\n' ∉ l := by simpa using hn
    -- without its end the line is the body of the note
    obtain ⟨hne, hc⟩ : l ≠ [] ∧ (l, []) = (c, cr) := by
      have hl' := noteBody?_append_lineEnd (.inl rfl) hl hnl
      rw [List.append_nil, hb] at hl'
      split_ifs at hl' with hne
      exact ⟨hne, (Option.some.inj hl').symm⟩
    obtain ⟨rfl, rfl⟩ := Prod.mk.inj hc
    have hb' : noteBody? (l ++ e) = some (l, e) := by
      rw [noteBody?_append_lineEnd he hl hnl, if_neg hne]
    have hr' : after? panelCloser (m ++ e') = some (r ++ e') := by
      rw [after?_append_lineEnd (by decide) he', hr]
      rfl
    have hmr : '\r' ∉ r := by
      rw [after?_eq_some_iff.mp hr, List.mem_append, not_or] at hm
      exact hm.2
    have hnote : Markup.callouts ((l ++ e) :: (m ++ e') :: ms) =
        (noteHead ++ [] ++ e) :: ('>' :: ' ' :: (l ++ r) ++ e') :: Markup.callouts ms := by
      simp [Markup.callouts, hb', hr']
    rw [hnote]
    exact .cons he (by decide) (.cons he' (by simp [hl, hmr]) (ih h hn))
  | case2 l m ls hno ih =>
    obtain _ | ⟨he, hl, h⟩ := h
    obtain ⟨hnl, hn⟩ := List.forall_mem_cons.mp hn
    have ih := ih h hn
    obtain _ | ⟨he', hm, h⟩ := h
    rw [callouts_of_noNote (.append_lineEnds he he' hl hnl (noNote_iff.mpr hno))]
    exact .cons he hl ih
  | case3 ls hno =>
    rcases ls with _ | ⟨l, _ | ⟨m, ls⟩⟩
    · obtain _ | _ := h
      exact .nil
    · obtain _ | ⟨he, hl, _ | _⟩ := h
      exact .cons he hl .nil
    · exact (hno l m ls rfl).elim

/-! ## Two runs -/

theorem carriesEnds_of_mem_patterns (hp : p ∈ r.patterns) :
    p = panelClosePattern ∨ (p.LineLocal ∧ CarriesEnds p) := by
  cases r with
  | status =>
    obtain rfl := List.mem_singleton.mp hp
    exact .inr ⟨lineLocal_colourPattern, carriesEnds_colourPattern⟩
  | stripLinks =>
    obtain rfl := List.mem_singleton.mp hp
    exact .inr ⟨lineLocal_linkPattern, carriesEnds_linkPattern⟩
  | quotes =>
    rcases List.mem_pair.mp hp with rfl | rfl
    · exact .inr ⟨lineLocal_quoteOpenPattern, carriesEnds_quoteOpenPattern⟩
    · exact .inr ⟨lineLocal_quoteClosePattern, carriesEnds_quoteClosePattern⟩
  | panel =>
    rcases List.mem_pair.mp hp with rfl | rfl
    · exact .inr ⟨lineLocal_panelOpenPattern, carriesEnds_panelOpenPattern⟩
    · exact .inl rfl
  | code =>
    obtain rfl := List.mem_singleton.mp hp
    exact .inr ⟨lineLocal_codePattern, carriesEnds_codePattern⟩
  | numberedLists =>
    obtain rfl := List.mem_singleton.mp hp
    exact .inr ⟨lineLocal_numberPattern, carriesEnds_numberPattern⟩
  | heading =>
    obtain rfl := List.mem_singleton.mp hp
    exact .inr ⟨lineLocal_headingPattern, carriesEnds_headingPattern⟩

/-- One pattern keeps two texts the same but for their line ends. -/
theorem ended_replace (hp : p ∈ r.patterns) (h : Ended es (lines s) (lines t)) :
    Ended es (lines (p.replace s)) (lines (p.replace t)) := by
  rcases carriesEnds_of_mem_patterns hp with rfl | ⟨hl, hc⟩
  · rw [lines_replace_panelClosePattern, lines_replace_panelClosePattern]
    exact h.callouts fun _ => notMem_of_mem_lines
  · rw [hl.lines_replace, hl.lines_replace]
    exact h.map_replace hc

theorem ended_apply (r : Rule) (h : Ended es (lines s) (lines t)) :
    Ended es (lines (r.apply s)) (lines (r.apply t)) :=
  List.foldl_rel (r := fun s t => Ended es (lines s) (lines t)) h
    fun _ hp _ _ h => ended_replace hp h

theorem ended_applyAll (rs : List Rule) (h : Ended es (lines s) (lines t)) :
    Ended es (lines (Rule.applyAll rs s)) (lines (Rule.applyAll rs t)) :=
  List.foldl_rel (r := fun s t => Ended es (lines s) (lines t)) h fun r _ _ _ h => ended_apply r h

theorem Ended.dropCarriages_eq (h : Ended es (lines s) (lines t)) : dropCarriages t = s := by
  have hu := h.dropCarriages_unlines
  rwa [unlines_lines, unlines_lines] at hu

/-- Conversion does not depend on how lines end: without its carriage returns a text is converted
to the same text without carriage returns, and each line break stays what it was. -/
theorem convert_dropCarriages (t : Text) (h : CarriagesPaired t) :
    convert (dropCarriages t) = dropCarriages (convert t) ∧
    CarriagesPaired (convert t) ∧ lineBreaks (convert t) = lineBreaks t := by
  obtain ⟨es, hlast, hes⟩ := exists_ended h
  have hconvert : Ended es (lines (convert (dropCarriages t))) (lines (convert t)) :=
    ended_applyAll Rule.standard hes
  refine ⟨hconvert.dropCarriages_eq.symm, ?_, ?_⟩
  · rw [← unlines_lines (convert t)]
    exact hconvert.carriagesPaired hlast
  · rw [hconvert.lineBreaks_eq, hes.lineBreaks_eq]

/-- A panel whose two line breaks are of different kinds. -/
theorem convert_dropCarriages_panel :
    CarriagesPaired "\x7bpanel:bgColor=#DEebff\x7dh1. a\r\n\x7bpanel\x7d\nb\r\n# c".toList ∧
    convert (dropCarriages
        "\x7bpanel:bgColor=#DEebff\x7dh1. a\r\n\x7bpanel\x7d\nb\r\n# c".toList) =
      dropCarriages (convert
        "\x7bpanel:bgColor=#DEebff\x7dh1. a\r\n\x7bpanel\x7d\nb\r\n# c".toList) ∧
    CarriagesPaired (convert
      "\x7bpanel:bgColor=#DEebff\x7dh1. a\r\n\x7bpanel\x7d\nb\r\n# c".toList) ∧
    lineBreaks (convert
        "\x7bpanel:bgColor=#DEebff\x7dh1. a\r\n\x7bpanel\x7d\nb\r\n# c".toList) =
      lineBreaks "\x7bpanel:bgColor=#DEebff\x7dh1. a\r\n\x7bpanel\x7d\nb\r\n# c".toList := by
  have h : CarriagesPaired
      "\x7bpanel:bgColor=#DEebff\x7dh1. a\r\n\x7bpanel\x7d\nb\r\n# c".toList := by
    have hc : CarriagesPaired "# c".toList := carriagesPaired_of_notMem (by decide)
    have hb := hc.append_break (l := "\x7bpanel\x7d\nb".toList) (.inr rfl) (by decide)
    exact hb.append_break (l := "\x7bpanel:bgColor=#DEebff\x7dh1. a".toList) (.inr rfl) (by decide)
  exact ⟨h, convert_dropCarriages _ h⟩

end IssueMarkdown.Markup
