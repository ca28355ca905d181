import IssueMarkdown.Proofs.Settling

/-! # Rules that commute

Where a rule finds something, what stands there afterwards begins with a character that no
marker of another rule has in it. So the others find after it what they found before it, and
the order of two rules shows only where one writes what the other reads.
-/

namespace IssueMarkdown.Markup

open Text Pattern

variable {c : Char} {l r t u : Text} {p q : Pattern} {cs : List Char}

/-! ## What is seen after a replacement -/

namespace Pattern

/-- After a hit the text goes on with one of these characters, or is at its end. -/
def Leaves (p : Pattern) (cs : List Char) : Prop :=
  ∀ ⦃start t h⦄, p.find? start t = some h → ∀ c ∈ (h.out ++ h.rest).head?, c ∈ cs

theorem Leaves.mono {cs' : List Char} (hp : p.Leaves cs) (h : cs ⊆ cs') : p.Leaves cs' :=
  fun _ _ _ found _ hc => h (hp found _ hc)

/-- Another character in front was there before. -/
theorem Leaves.exists_eq_cons (hp : p.Leaves cs) (hc : c ∉ cs) {start : Bool}
    (h : p.replaceFrom start t = c :: r) :
    ∃ t', t = c :: t' ∧ r = p.replaceFrom (p.breaksLine c) t' := by
  induction start, t using scan_induction (p := p) with
  | hit start t hit found ih =>
    rw [replaceFrom_of_find? found] at h
    have hout := hp found
    cases ho : hit.out with
    | nil =>
      rw [ho, List.nil_append] at h hout
      obtain ⟨t', ht, -⟩ := ih h
      rw [ht] at hout
      exact absurd (hout c rfl) hc
    | cons d o =>
      rw [ho, List.cons_append] at h hout
      obtain ⟨rfl, -⟩ := List.cons.inj h
      exact absurd (hout d rfl) hc
  | done start => simp at h
  | pass start d t missed ih =>
    rw [replaceFrom_cons missed] at h
    obtain ⟨rfl, rfl⟩ := List.cons.inj h
    exact ⟨t, rfl, rfl⟩

/-- A text of other characters in front was there before. -/
theorem Leaves.exists_eq_append (hp : p.Leaves cs) (hu : ∀ c ∈ u, c ∉ cs) {start : Bool}
    (h : p.replaceFrom start t = u ++ r) :
    ∃ start' t', t = u ++ t' ∧ r = p.replaceFrom start' t' := by
  induction u generalizing start t with
  | nil => exact ⟨start, t, rfl, h.symm⟩
  | cons c u ih =>
    obtain ⟨hc, hu⟩ := List.forall_mem_cons.mp hu
    obtain ⟨t', rfl, ht'⟩ := hp.exists_eq_cons hc h
    obtain ⟨start', t'', rfl, hr⟩ := ih hu ht'.symm
    exact ⟨start', t'', rfl, hr⟩

theorem Turns.leaves {R : Text → Text → Prop} (hp : p.Turns R)
    (h : ∀ u v, R u v → ∃ c ∈ cs, ∃ v', v = c :: v') : p.Leaves cs := by
  intro start t hit found c hc
  obtain ⟨u, -, hu⟩ := hp found
  obtain ⟨d, hd, v, hv⟩ := h _ _ hu
  rw [hv] at hc
  obtain rfl : d = c := by simpa using hc
  exact hd

end Pattern

theorem leaves_colourPattern : colourPattern.Leaves ['*'] :=
  colourPattern_turns.leaves fun _ _ h => ⟨'*', by simp, ['*'], h.1⟩

theorem leaves_codePattern : codePattern.Leaves ['`'] :=
  codePattern_turns.leaves fun _ _ ⟨s, _, _, _, hv⟩ => ⟨'`', by simp, s ++ ['`'], hv⟩

theorem leaves_quoteOpenPattern : quoteOpenPattern.Leaves ['>'] :=
  quoteOpenPattern_turns.leaves fun _ _ h => ⟨'>', by simp, [' '], h.2⟩

theorem leaves_quoteClosePattern : quoteClosePattern.Leaves ['\n', '\r'] := by
  intro start t h found c hc
  obtain ⟨r, hr, rfl⟩ := Option.map_eq_some_iff.mp found
  have ends := (Option.filter_eq_some_iff.mp hr).2
  obtain ⟨r, rfl⟩ := List.head?_eq_some_iff.mp (Option.mem_def.mp hc)
  simpa [endsLine, isLineEnd] using ends

/-! ## Line rules and the rules within a line -/

/-- What stands where a rule within a line has found something. -/
def leavings : List Char := ['*', '`', '>', '\n', '\r']

section Lines

variable {f : Text → Text}

theorem numbered_replace (hp : p.PassesBut marks) (hq : p.Leaves leavings) (l : Text) :
    numbered (p.replace l) = p.replace (numbered l) := by
  cases hl : after? ['#', ' '] l with
  | some r =>
    obtain rfl := after?_eq_some_iff.mp hl
    rw [replace_append_of_inert hp (by decide) (by simp)]
    exact (replace_append_of_inert (u := ['1', '.', ' ']) hp (by decide) (by simp) r).symm
  | none =>
    rw [numbered_of_after?_eq_none hl]
    refine numbered_of_after?_eq_none (after?_eq_none_iff.mpr ?_)
    rintro ⟨r, hr⟩
    obtain ⟨-, t', rfl, -⟩ := hq.exists_eq_append (by decide) hr.symm
    exact after?_eq_none_iff.mp hl ⟨t', rfl⟩

theorem dropWhile_isHeadingBlank_replaceFrom (hp : p.PassesBut marks) (hq : p.Leaves leavings)
    (t : Text) : (p.replaceFrom false t).dropWhile isHeadingBlank =
      p.replaceFrom false (t.dropWhile isHeadingBlank) := by
  have hb : ∀ c ∈ t.takeWhile isHeadingBlank, isHeadingBlank c := fun c hc =>
    List.mem_takeWhile_imp hc
  have ht := replaceFrom_append_of_passes (p := p)
    (fun c hc => hp (inert_of_isHeadingBlank (hb c hc))) false (t.dropWhile isHeadingBlank)
  rw [List.takeWhile_append_dropWhile, Bool.false_and] at ht
  rw [ht]
  refine dropWhile_append_of_stop hb fun c hc => ?_
  -- a blank after them would have been one of them
  by_contra hblank
  obtain ⟨r, hr⟩ := List.head?_eq_some_iff.mp (Option.mem_def.mp hc)
  rw [Bool.not_eq_false] at hblank
  have hcl : c ∉ leavings := by
    rcases (by simpa [isHeadingBlank] using hblank : c = ' ' ∨ c = '\t') with rfl | rfl <;> decide
  obtain ⟨t', ht', -⟩ := hq.exists_eq_cons hcl hr
  have := List.head?_dropWhile_not isHeadingBlank t
  rw [ht'] at this
  simp [hblank] at this

theorem titled_replace (hp : p.PassesBut marks) (hq : p.Leaves leavings) (l : Text) :
    titled (p.replace l) = p.replace (titled l) := by
  cases hl : heading? l with
  | some x =>
    obtain ⟨n, r⟩ := x
    obtain ⟨d, s, h₁, h₂, rfl, rfl, rfl⟩ := heading?_eq_some_iff.mp hl
    have hm : p.replace ('h' :: d :: '.' :: s) = 'h' :: d :: '.' :: p.replaceFrom false s :=
      replace_append_of_inert (u := ['h', d, '.']) hp (inert_headingMarker h₁ h₂ (by simp))
        (by simp) s
    have ho := replace_append_of_inert hp (inert_headingOut (depth d)) (by simp)
      (s.dropWhile isHeadingBlank)
    rw [hm, titled_heading h₁ h₂, titled_heading h₁ h₂,
      dropWhile_isHeadingBlank_replaceFrom hp hq]
    simpa using ho.symm
  | none =>
    rw [titled_of_heading?_eq_none hl]
    refine titled_of_heading?_eq_none ?_
    by_contra hn
    obtain ⟨⟨n, r⟩, hr⟩ := Option.ne_none_iff_exists'.mp hn
    obtain ⟨d, s, h₁, h₂, -, -, he⟩ := heading?_eq_some_iff.mp hr
    have hd : ∀ c ∈ ['h', d, '.'], c ∉ leavings := by
      simp only [List.forall_mem_cons]
      exact ⟨by decide, notMem_of_depth (by decide) h₁ h₂, by decide, by simp⟩
    obtain ⟨-, t', rfl, -⟩ := hq.exists_eq_append (u := ['h', d, '.']) hd he
    have hs := heading?_eq_some_iff.mpr ⟨d, t', h₁, h₂, rfl, rfl, rfl⟩
    exact Option.some_ne_none _ (hs.symm.trans hl)

/-- What is done to every line by itself commutes with what commutes on every line. -/
theorem replace_comm_of_lines (hp : p.LineLocal) {g : Text → Text}
    (hg : ∀ t, lines (g t) = (lines t).map f) (hf : ∀ l, f (p.replace l) = p.replace (f l))
    (t : Text) : g (p.replace t) = p.replace (g t) := by
  apply lines_injective
  rw [hg, hp.lines_replace, hp.lines_replace, hg, List.map_map, List.map_map]
  exact List.map_congr_left fun l _ => hf l

/-- A rule on the beginnings of lines commutes with a pattern that leaves other things there. -/
theorem replace_apply_of_mem_lineRules {ρ : Rule} (hρ : ρ ∈ lineRules) (hl : p.LineLocal)
    (hp : p.PassesBut marks) (hq : p.Leaves leavings) (t : Text) :
    ρ.apply (p.replace t) = p.replace (ρ.apply t) := by
  cases ρ with
  | numberedLists =>
    exact replace_comm_of_lines hl lines_replace_numberPattern (numbered_replace hp hq) t
  | heading => exact replace_comm_of_lines hl lines_replace_headingPattern (titled_replace hp hq) t
  | _ => exact absurd hρ (by decide)

end Lines

/-! ## Colours and quote markers -/

/-- A pattern on quote markers asks only whether a line starts before and ends after one. -/
structure OnQuotes (q : Pattern) (asks : Bool → Bool → Prop) (out : Text) : Prop where
  breaksLine : q.breaksLine = isLineEnd
  find?_eq_some_iff : ∀ start t h, q.find? start t = some h ↔
    ∃ r, t = quoteMarker ++ r ∧ asks start (endsLine r) ∧ h = ⟨out, r⟩
  passes : q.PassesBut ['{', '\n', '\r']
  leaves : q.Leaves ['>', '\n', '\r']
  keeps : colourPattern.Keeps out

theorem onQuotes_quoteOpenPattern :
    OnQuotes quoteOpenPattern (fun start _ => start) ['>', ' '] where
  breaksLine := rfl
  find?_eq_some_iff start t h := by
    cases start
    · simp [quoteOpenPattern]
    · simp [quoteOpenPattern, after?_eq_some_iff, eq_comm (a := h)]
  passes := passes_quoteOpenPattern
  leaves := leaves_quoteOpenPattern.mono (by decide)
  keeps := passes_colourPattern.keeps (by decide)

theorem onQuotes_quoteClosePattern :
    OnQuotes quoteClosePattern (fun _ ends => ends) [] where
  breaksLine := rfl
  find?_eq_some_iff start t h := by
    simp only [quoteClosePattern, Option.map_eq_some_iff, Option.filter_eq_some_iff,
      after?_eq_some_iff, and_assoc, eq_comm (a := h)]
  passes := passes_quoteClosePattern
  leaves := leaves_quoteClosePattern.mono (by decide)
  keeps := passes_colourPattern.keeps (by simp)

theorem replaceFrom_colourPattern (start : Bool) (t : Text) :
    colourPattern.replaceFrom start t = colourPattern.replaceFrom false t := by
  have anywhere : colourPattern.Anywhere := fun _ => rfl
  exact anywhere.replaceFrom_eq start t

theorem endsLine_replaceFrom_colourPattern (t : Text) :
    endsLine (colourPattern.replaceFrom false t) = endsLine t := by
  cases t with
  | nil => rw [replaceFrom_nil]
  | cons c t =>
    cases found : colourPattern.find? false (c :: t) with
    | none =>
      rw [replaceFrom_cons found]
      rfl
    | some h =>
      obtain ⟨a, m, b, ha, hm, -, -, he, hout⟩ := find?_colourPattern_sound found
      obtain ⟨d, w, rfl, -⟩ := hm.eq_brace_cons
      rw [replaceFrom_of_find? found, hout]
      rcases ha with rfl | rfl
      · obtain ⟨rfl, -⟩ := List.cons.inj he
        rfl
      · obtain ⟨rfl, -⟩ := List.cons.inj he
        rfl

namespace OnQuotes

variable {asks : Bool → Bool → Prop} {out : Text} {start : Bool}

theorem find?_brace (hq : OnQuotes q asks out) (hc : c ≠ 'q') (t : Text) :
    q.find? start ('{' :: c :: t) = none := by
  by_contra hn
  obtain ⟨h, found⟩ := Option.ne_none_iff_exists'.mp hn
  obtain ⟨r, he, -⟩ := (hq.find?_eq_some_iff ..).mp found
  exact hc (List.cons.inj (List.cons.inj he).2).1

/-- No quote marker is found in a colour marker. -/
theorem replaceFrom_colourMarker (hq : OnQuotes q asks out) {m : Text} (hm : ColourMarker m)
    (t : Text) : q.replaceFrom start (m ++ t) = m ++ q.replaceFrom false t := by
  have hlf := hm.notMem (x := '\n') (by decide) rfl (by decide)
  have hcr := hm.notMem (x := '\r') (by decide) rfl (by decide)
  have hbrace := hm.brace_notMem_tail
  obtain ⟨c, u, rfl, hc⟩ := hm.eq_brace_cons
  have hu : q.Keeps (c :: u) := hq.passes.keeps (u := c :: u) fun d hd => by
    simp only [List.mem_cons, List.not_mem_nil, or_false]
    rintro (rfl | rfl | rfl)
    · exact hbrace hd
    · exact hlf (List.mem_cons_of_mem _ hd)
    · exact hcr (List.mem_cons_of_mem _ hd)
  have hcq : c ≠ 'q' := fun he => absurd (he ▸ hc) (by decide)
  have hb : q.breaksLine '{' = false := by
    rw [hq.breaksLine]
    rfl
  rw [List.cons_append, List.cons_append, replaceFrom_cons (hq.find?_brace hcq _), hb]
  exact congrArg _ (hu t)

theorem replaceFrom_starredColour (hq : OnQuotes q asks out) {u : Text} (hu : StarredColour u)
    (t : Text) : q.replaceFrom start (u ++ t) = u ++ q.replaceFrom false t := by
  obtain ⟨a, m, b, ha, hm, hb, rfl⟩ := hu
  have star : ∀ {b}, IsStar b → ∀ c ∈ b, q.Passes c := by
    rintro b (rfl | rfl)
    · simp
    · simpa using hq.passes (by decide)
  rw [List.append_assoc, List.append_assoc, replaceFrom_append_of_passes (star ha),
    hq.replaceFrom_colourMarker hm, keeps_of_passes (star hb) t, List.append_assoc,
    List.append_assoc]

/-- What is done to quote markers makes no colour marker. -/
theorem find?_colourPattern_eq_none (hq : OnQuotes q asks out)
    (miss : colourPattern.find? false (c :: t) = none) :
    colourPattern.find? false (c :: q.replaceFrom start t) = none := by
  by_contra hn
  obtain ⟨h, found⟩ := Option.ne_none_iff_exists'.mp hn
  obtain ⟨a, m, b, ha, hm, -, -, he, -⟩ := find?_colourPattern_sound found
  have ham : ∀ d ∈ a ++ m, d ∉ ['>', '\n', '\r'] := by
    have star : ∀ d ∈ a, d ∉ ['>', '\n', '\r'] := by
      rcases ha with rfl | rfl
      · simp
      · decide
    refine List.forall_mem_append.mpr ⟨star, fun d hd => ?_⟩
    simp only [List.mem_cons, List.not_mem_nil, or_false]
    rintro (rfl | rfl | rfl)
    · exact hm.notMem (by decide) rfl (by decide) hd
    · exact hm.notMem (by decide) rfl (by decide) hd
    · exact hm.notMem (by decide) rfl (by decide) hd
  obtain ⟨d, u, hu⟩ := List.exists_cons_of_ne_nil (l := a ++ m) (by
    obtain ⟨d, u, rfl, -⟩ := hm.eq_brace_cons
    simp)
  rw [List.append_assoc, hu, List.cons_append] at he
  rw [hu, List.forall_mem_cons] at ham
  obtain ⟨rfl, hu'⟩ := List.cons.inj he
  obtain ⟨-, t', rfl, -⟩ := hq.leaves.exists_eq_append ham.2 hu'
  rw [← List.cons_append, ← hu] at miss
  exact find?_colourPattern_ne_none ha hm false t' miss

/-- What is done to colour markers makes no quote marker and ends no line. -/
theorem find?_eq_none (hq : OnQuotes q asks out) (miss : q.find? start (c :: t) = none) :
    q.find? start (c :: colourPattern.replaceFrom false t) = none := by
  by_contra hn
  obtain ⟨h, found⟩ := Option.ne_none_iff_exists'.mp hn
  obtain ⟨r, he, hasks, -⟩ := (hq.find?_eq_some_iff ..).mp found
  rw [quoteMarker, List.cons_append] at he
  obtain ⟨rfl, hr⟩ := List.cons.inj he
  obtain ⟨b, t', rfl, rfl⟩ := leaves_colourPattern.exists_eq_append (by decide) hr
  rw [replaceFrom_colourPattern, endsLine_replaceFrom_colourPattern] at hasks
  have hs := (hq.find?_eq_some_iff start _ _).mpr ⟨t', rfl, hasks, rfl⟩
  exact Option.some_ne_none _ (hs.symm.trans miss)

/-- Where a colour marker is found, the rest is what decides. -/
theorem replaceFrom_comm_of_find? (hq : OnQuotes q asks out) {h : Hit}
    (found : colourPattern.find? false t = some h)
    (ih : colourPattern.replaceFrom false (q.replaceFrom false h.rest) =
      q.replaceFrom false (colourPattern.replaceFrom false h.rest)) :
    colourPattern.replaceFrom false (q.replaceFrom start t) =
      q.replaceFrom start (colourPattern.replaceFrom false t) := by
  have star : '*' ∉ ['>', '\n', '\r'] := by decide
  have out : ∀ c ∈ ['*', '*'], q.Passes c := by simpa using hq.passes (by decide)
  obtain ⟨a, m, b, ha, hm, hb, hrest, rfl, hout⟩ := find?_colourPattern_sound found
  have hrest' : b = [] → (q.replaceFrom false h.rest).head? ≠ some '*' := by
    intro hn he
    obtain ⟨r, hr⟩ := List.head?_eq_some_iff.mp he
    obtain ⟨t', ht', -⟩ := hq.leaves.exists_eq_cons star hr
    exact hrest hn (ht' ▸ rfl)
  calc colourPattern.replaceFrom false (q.replaceFrom start (a ++ m ++ b ++ h.rest))
      = colourPattern.replaceFrom false (a ++ m ++ b ++ q.replaceFrom false h.rest) := by
        rw [hq.replaceFrom_starredColour ⟨a, m, b, ha, hm, hb, rfl⟩]
    _ = ['*', '*'] ++ colourPattern.replaceFrom false (q.replaceFrom false h.rest) :=
        replaceFrom_of_find? (find?_colourPattern_marker ha hm hb hrest' false)
    _ = ['*', '*'] ++ q.replaceFrom false (colourPattern.replaceFrom false h.rest) := by rw [ih]
    _ = q.replaceFrom start (['*', '*'] ++ colourPattern.replaceFrom false h.rest) := by
        rw [replaceFrom_append_of_passes out, List.isEmpty_cons, Bool.and_false]
    _ = q.replaceFrom start (colourPattern.replaceFrom false (a ++ m ++ b ++ h.rest)) := by
        rw [replaceFrom_of_find? found, hout]

theorem replaceFrom_comm (hq : OnQuotes q asks out) (start : Bool) (t : Text) :
    colourPattern.replaceFrom false (q.replaceFrom start t) =
      q.replaceFrom start (colourPattern.replaceFrom false t) := by
  -- on the length of the text, as a hit of one pattern is many steps of the other
  induction ht : t.length using Nat.strongRecOn generalizing start t with
  | _ n ih =>
    subst ht
    cases hc : colourPattern.find? false t with
    | some h => exact hq.replaceFrom_comm_of_find? hc (ih _ (colourPattern.shorter hc) _ _ rfl)
    | none =>
      cases hf : q.find? start t with
      | some h =>
        have hr := ih _ (q.shorter hf) false _ rfl
        obtain ⟨r, rfl, hasks, rfl⟩ := (hq.find?_eq_some_iff ..).mp hf
        rw [← endsLine_replaceFrom_colourPattern] at hasks
        have hf' := (hq.find?_eq_some_iff start _ _).mpr ⟨_, rfl, hasks, rfl⟩
        rw [replaceFrom_of_find? hf, hq.keeps, hr, keeps_quoteMarker_colourPattern,
          replaceFrom_of_find? hf']
      | none =>
        cases t with
        | nil => simp only [replaceFrom_nil]
        | cons c t =>
          rw [replaceFrom_cons hf, replaceFrom_cons (hq.find?_colourPattern_eq_none hc),
            replaceFrom_cons hc, replaceFrom_colourPattern,
            replaceFrom_colourPattern (colourPattern.breaksLine c) t,
            replaceFrom_cons (hq.find?_eq_none hf), ih _ (Nat.lt_succ_self _) _ _ rfl]

theorem replace_comm (hq : OnQuotes q asks out) (t : Text) :
    colourPattern.replace (q.replace t) = q.replace (colourPattern.replace t) := by
  simp only [replace, replaceFrom_colourPattern true]
  exact hq.replaceFrom_comm true t

end OnQuotes

/-! ## Rules -/

/-- What commutes with the patterns of a rule commutes with the rule. -/
theorem apply_comm_of_patterns {σ : Rule} {g : Text → Text}
    (h : ∀ p ∈ σ.patterns, ∀ t, g (p.replace t) = p.replace (g t)) (t : Text) :
    g (σ.apply t) = σ.apply (g t) :=
  List.foldl_rel (r := fun x y => g x = y) rfl fun p hp x y hxy => by
    rw [h p hp, hxy]

theorem leaves_of_mem_patterns {σ : Rule} (hσ : σ ∈ [.status, .quotes, .code])
    (hp : p ∈ σ.patterns) : p.LineLocal ∧ p.PassesBut marks ∧ p.Leaves leavings := by
  cases σ with
  | status =>
    obtain rfl := List.mem_singleton.mp hp
    exact ⟨lineLocal_colourPattern, passes_colourPattern.mono (by decide),
      leaves_colourPattern.mono (by decide)⟩
  | quotes =>
    rcases List.mem_pair.mp hp with rfl | rfl
    · exact ⟨lineLocal_quoteOpenPattern, passes_quoteOpenPattern.mono (by decide),
        leaves_quoteOpenPattern.mono (by decide)⟩
    · exact ⟨lineLocal_quoteClosePattern, passes_quoteClosePattern.mono (by decide),
        leaves_quoteClosePattern.mono (by decide)⟩
  | code =>
    obtain rfl := List.mem_singleton.mp hp
    exact ⟨lineLocal_codePattern, passes_codePattern.mono (by decide),
      leaves_codePattern.mono (by decide)⟩
  | _ => exact absurd hσ (by decide)

theorem apply_comm_of_mem_lineRules {ρ σ : Rule} (hρ : ρ ∈ lineRules)
    (hσ : σ ∈ [.status, .quotes, .code]) (t : Text) :
    ρ.apply (σ.apply t) = σ.apply (ρ.apply t) := by
  refine apply_comm_of_patterns (fun p hp t => ?_) t
  obtain ⟨hl, hi, hq⟩ := leaves_of_mem_patterns hσ hp
  exact replace_apply_of_mem_lineRules hρ hl hi hq t

theorem status_apply_quotes (t : Text) :
    Rule.status.apply (Rule.quotes.apply t) = Rule.quotes.apply (Rule.status.apply t) := by
  refine apply_comm_of_patterns (fun p hp t => ?_) t
  rcases List.mem_pair.mp hp with rfl | rfl
  · exact onQuotes_quoteOpenPattern.replace_comm t
  · exact onQuotes_quoteClosePattern.replace_comm t

/-- List markers and headings may change places with colours, quotes and code, and colours with
quotes, on every text. -/
theorem rules_commute :
    (∀ r ∈ [Rule.numberedLists, .heading], ∀ s ∈ [Rule.status, .quotes, .code],
      Function.Commute r.apply s.apply) ∧
    Function.Commute Rule.status.apply Rule.quotes.apply :=
  ⟨fun _ hr _ hs t => apply_comm_of_mem_lineRules hr hs t, status_apply_quotes⟩

/-- A heading whose text begins with a coloured word. -/
theorem rules_commute_coloured_heading :
    Rule.heading.apply (Rule.status.apply "h2.\t*\x7bcolor\x7da\x7bcolor\x7d*".toList) =
      Rule.status.apply (Rule.heading.apply "h2.\t*\x7bcolor\x7da\x7bcolor\x7d*".toList) :=
  rules_commute.1 .heading (by decide) .status (by decide) _

/-- A heading of depth one is a list item to the rule that runs after it. -/
example : Rule.numberedLists.apply (Rule.heading.apply "h1. a".toList) = "1. a".toList ∧
    Rule.heading.apply (Rule.numberedLists.apply "h1. a".toList) = "# a".toList := by cbv

end IssueMarkdown.Markup
