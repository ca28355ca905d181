import IssueMarkdown.Markup.Rule
import IssueMarkdown.Proofs.Lines
import Mathlib.Data.List.Infix

/-! # Links and mentions

A link or a mention ends at the first closing bracket after its opening one, so a hit is
the same whichever of the two it is read as. Text in which every bracket is closed without a bar
is left as it is, whatever stands before and after it.
-/

namespace IssueMarkdown.Markup

open Text Pattern

def mentionLead : Text := ['[', '~', 'a', 'c', 'c', 'o', 'u', 'n', 't', 'i', 'd']

/-- A link with label and target, or a mention. -/
inductive LinkMarker : Text → Prop where
  | link {d u : Text} (label_ne : d ≠ []) (label : ∀ c ∈ d, isLabel c) (target_ne : u ≠ [])
      (target : ∀ c ∈ u, isTarget c) : LinkMarker ('[' :: (d ++ '|' :: (u ++ [']'])))
  | mention {s : Text} (target : ∀ c ∈ s, isTarget c) : LinkMarker (mentionLead ++ (s ++ [']']))

variable {c : Char} {m s t r u : Text}

theorem link?_eq_some_iff : link? t = some r ↔
    ∃ d u, d ≠ [] ∧ (∀ c ∈ d, isLabel c) ∧ u ≠ [] ∧ (∀ c ∈ u, isTarget c) ∧
      t = '[' :: (d ++ '|' :: (u ++ ']' :: r)) := by
  simp only [link?, Option.bind_eq_some_iff, after?_eq_some_iff, run?_eq_some_iff]
  constructor
  · rintro ⟨_, rfl, _, ⟨d, hd, hl, -, rfl⟩, _, rfl, _, ⟨u, hu, ht, -, rfl⟩, rfl⟩
    exact ⟨d, u, hd, hl, hu, ht, rfl⟩
  · rintro ⟨d, u, hd, hl, hu, ht, rfl⟩
    exact ⟨_, rfl, _, ⟨d, hd, hl, by simp [isLabel], rfl⟩, _, rfl, _,
      ⟨u, hu, ht, by simp [isTarget], rfl⟩, rfl⟩

theorem mention?_eq_some_iff : mention? t = some r ↔
    ∃ s, (∀ c ∈ s, isTarget c) ∧ t = mentionLead ++ (s ++ ']' :: r) := by
  simp only [mention?, Option.bind_eq_some_iff, after?_eq_some_iff]
  constructor
  · rintro ⟨u, rfl, hu⟩
    refine ⟨u.takeWhile isTarget, fun c hc => List.mem_takeWhile_imp hc, ?_⟩
    rw [show ']' :: r = u.dropWhile isTarget from hu.symm, List.takeWhile_append_dropWhile]
    rfl
  · rintro ⟨s, hs, rfl⟩
    exact ⟨_, rfl, dropWhile_append_of_stop hs (by simp [isTarget])⟩

theorem isTarget_of_isLabel (h : isLabel c) : isTarget c := by
  simp only [isLabel, isTarget, Bool.and_eq_true] at h ⊢
  exact ⟨h.1.1, h.2⟩

/-- A link marker has its only closing bracket at its end, and no line feed. -/
theorem LinkMarker.exists_body (h : LinkMarker m) :
    ∃ b, m = '[' :: (b ++ [']']) ∧ ∀ c ∈ b, isTarget c := by
  rcases h with @⟨d, u, -, hd, -, hu⟩ | @⟨s, hs⟩
  · refine ⟨d ++ '|' :: u, by simp, ?_⟩
    simp only [List.forall_mem_append, List.forall_mem_cons]
    exact ⟨fun c hc => isTarget_of_isLabel (hd c hc), rfl, hu⟩
  · refine ⟨mentionLead.tail ++ s, by simp [mentionLead], ?_⟩
    exact List.forall_mem_append.mpr ⟨by decide, hs⟩

theorem LinkMarker.rest_unique {m' r' : Text} (h : LinkMarker m) (h' : LinkMarker m')
    (he : m ++ r = m' ++ r') : r = r' := by
  obtain ⟨b, rfl, hb⟩ := h.exists_body
  obtain ⟨b', rfl, hb'⟩ := h'.exists_body
  have bracket : ∀ {b : Text}, (∀ c ∈ b, isTarget c) → ']' ∉ b := fun h hm => by
    simpa [isTarget] using h _ hm
  simp only [List.cons_append, List.append_assoc, List.cons.injEq, true_and, List.nil_append] at he
  exact (first_split_unique (bracket hb) (bracket hb') he).2

theorem linkMark_eq_some_iff :
    (link? t).or (mention? t) = some r ↔ ∃ m, LinkMarker m ∧ t = m ++ r := by
  have sound : ∀ {r}, (link? t).or (mention? t) = some r → ∃ m, LinkMarker m ∧ t = m ++ r := by
    intro r h
    rcases Option.or_eq_some_iff.mp h with h | ⟨-, h⟩
    · obtain ⟨d, u, hd, hl, hu, ht, rfl⟩ := link?_eq_some_iff.mp h
      exact ⟨_, .link hd hl hu ht, by simp⟩
    · obtain ⟨s, hs, rfl⟩ := mention?_eq_some_iff.mp h
      exact ⟨_, .mention hs, by simp⟩
  refine ⟨sound, ?_⟩
  rintro ⟨m, hm, rfl⟩
  -- some recogniser accepts, and whichever does leaves the same rest
  have found : (link? (m ++ r)).or (mention? (m ++ r)) ≠ none := by
    rcases hm with @⟨d, u, hd, hl, hu, ht⟩ | @⟨s, hs⟩
    · have hr := link?_eq_some_iff (r := r).mpr ⟨d, u, hd, hl, hu, ht, rfl⟩
      simp [hr]
    · have hr := mention?_eq_some_iff (r := r).mpr ⟨s, hs, rfl⟩
      simp [hr]
  obtain ⟨r', hr'⟩ := Option.ne_none_iff_exists'.mp found
  obtain ⟨m', hm', he⟩ := sound hr'
  rw [hr', hm.rest_unique hm' he]

theorem linkPattern_turns : linkPattern.Turns fun u v => v = [] ∧ LinkMarker u := by
  rintro start t h hit
  obtain ⟨r, hr, rfl⟩ := Option.map_eq_some_iff.mp hit
  obtain ⟨m, hm, rfl⟩ := linkMark_eq_some_iff.mp hr
  exact ⟨m, rfl, rfl, hm⟩

theorem find?_linkPattern_marker (hm : LinkMarker m) (start : Bool) (t : Text) :
    linkPattern.find? start (m ++ t) = some ⟨[], t⟩ := by
  have hr := linkMark_eq_some_iff (t := m ++ t) (r := t).mpr ⟨m, hm, rfl⟩
  simp only [linkPattern, hr, Option.map_some]

theorem LinkMarker.lineFeed_notMem (h : LinkMarker m) : '\n' ∉ m := by
  obtain ⟨b, rfl, hb⟩ := h.exists_body
  have : '\n' ∉ b := fun hm => by simpa [isTarget] using hb _ hm
  simp [this]

theorem stopsAt_mention? : StopsAt '\n' mention? := by
  refine (stopsAt_after? (by decide)).bind fun s t => ?_
  rw [dropWhile_append_cons rfl]
  exact stopsAt_after? (by decide) _ t

theorem lineLocal_linkPattern : linkPattern.LineLocal where
  breaksLine := rfl
  find?_append := find?_append_of_stopsAt (fun _ _ => rfl)
    (((stopsAt_after? (by decide)).bind ((stopsAt_run? rfl).bind ((stopsAt_after? (by decide)).bind
      ((stopsAt_run? rfl).bind (stopsAt_after? (by decide)))))).or stopsAt_mention?)
  count_replace := linkPattern_turns.count_replaceFrom fun u v h => by
    obtain ⟨rfl, hu⟩ := h
    rw [List.count_eq_zero.mpr hu.lineFeed_notMem]
    rfl

theorem passes_linkPattern : linkPattern.PassesBut ['[', '\n'] := by
  refine linkPattern_turns.passesBut ?_ (by simp [linkPattern, isLineFeed])
  rintro u v ⟨-, hm⟩
  obtain ⟨b, rfl, -⟩ := hm.exists_body
  exact ⟨'[', by simp, _, rfl⟩

/-! ## Prose -/

/-- After an opening bracket, a closing bracket or the end of the line comes before any bar. -/
def ClosesPlainly (r : Text) : Prop :=
  ∃ a c b, (∀ d ∈ a, isLabel d) ∧ (c = ']' ∨ c = '\n') ∧ r = a ++ c :: b

/-- A text in which no bracket can be taken for a link or a mention. -/
structure Prose (t : Text) : Prop where
  closes : ∀ r, '[' :: r <:+ t → ClosesPlainly r
  no_mention : ¬ mentionLead <:+: t

theorem dropWhile_isLabel {a : Text} (ha : ∀ d ∈ a, isLabel d) (hc : c = ']' ∨ c = '\n')
    (b : Text) : (a ++ c :: b).dropWhile isLabel = c :: b := by
  refine dropWhile_append_of_stop ha ?_
  rcases hc with rfl | rfl <;> simp [isLabel]

theorem closesPlainly_iff : ClosesPlainly r ↔
    (r.dropWhile isLabel).head? = some ']' ∨ (r.dropWhile isLabel).head? = some '\n' := by
  constructor
  · rintro ⟨a, c, b, ha, hc, rfl⟩
    rw [dropWhile_isLabel ha hc]
    simpa using hc
  · intro h
    obtain ⟨c, hc, hm⟩ : ∃ c, (c = ']' ∨ c = '\n') ∧ (r.dropWhile isLabel).head? = some c := by
      rcases h with h | h
      · exact ⟨_, .inl rfl, h⟩
      · exact ⟨_, .inr rfl, h⟩
    obtain ⟨b, hb⟩ := List.head?_eq_some_iff.mp hm
    refine ⟨r.takeWhile isLabel, c, b, fun d hd => List.mem_takeWhile_imp hd, hc, ?_⟩
    rw [← hb, List.takeWhile_append_dropWhile]

instance : DecidablePred ClosesPlainly := fun _ => decidable_of_iff _ closesPlainly_iff.symm

instance : DecidablePred Prose := fun t =>
  decidable_of_iff ((∀ s ∈ t.tails, s.head? = some '[' → ClosesPlainly s.tail) ∧
    ¬ mentionLead <:+: t) <| by
  constructor
  · rintro ⟨hc, hm⟩
    exact ⟨fun r hr => hc _ ((List.mem_tails ..).mpr hr) rfl, hm⟩
  · rintro ⟨hc, hm⟩
    refine ⟨fun s hs he => ?_, hm⟩
    obtain ⟨r, rfl⟩ := List.head?_eq_some_iff.mp he
    exact hc r ((List.mem_tails ..).mp hs)

theorem Prose.of_cons (h : Prose (c :: t)) : Prose t where
  closes r hr := h.closes r (hr.trans (List.suffix_cons c t))
  no_mention hm := h.no_mention (hm.trans (List.suffix_cons c t).isInfix)

/-- Whatever follows prose, no link begins at a bracket in it: its label would reach the bar
only past the end of the bracket or of the line. -/
theorem ClosesPlainly.ne_link {d v : Text} (h : ClosesPlainly t) (hd : ∀ c ∈ d, isLabel c) :
    t ++ u ≠ d ++ '|' :: v := by
  obtain ⟨a, c, b, ha, hc, rfl⟩ := h
  intro he
  have hw := congrArg (List.dropWhile isLabel) he
  rw [List.append_assoc, List.cons_append, dropWhile_isLabel ha hc,
    dropWhile_append_of_stop hd (by simp [isLabel])] at hw
  obtain ⟨rfl, -⟩ := List.cons.inj hw
  rcases hc with hc | hc <;> exact absurd hc (by decide)

/-- Nor does a mention: its first characters would all be in the prose. -/
theorem Prose.ne_mention (h : Prose ('[' :: t)) (v : Text) :
    '[' :: (t ++ u) ≠ mentionLead ++ v := by
  intro he
  have hl : mentionLead <+: ('[' :: t) ++ u := ⟨v, he.symm⟩
  rcases List.prefix_or_prefix_of_prefix hl (List.prefix_append _ u) with hp | hp
  · exact h.no_mention hp.isInfix
  · obtain ⟨a, c, b, -, hc, rfl⟩ := h.closes t List.suffix_rfl
    have hm : c ∈ mentionLead := hp.subset (by simp)
    rcases hc with rfl | rfl <;> exact absurd hm (by decide)

theorem find?_linkPattern_of_ne (hc : c ≠ '[') (start : Bool) (t : Text) :
    linkPattern.find? start (c :: t) = none := by
  refine linkPattern_turns.find?_eq_none ?_ start
  rintro m v r ⟨-, hm⟩ he
  obtain ⟨b, rfl, -⟩ := hm.exists_body
  exact hc (List.cons.inj he).1

theorem Prose.find?_linkPattern (h : Prose (c :: t)) (start : Bool) (u : Text) :
    linkPattern.find? start (c :: (t ++ u)) = none := by
  by_cases hc : c = '['
  · subst hc
    refine linkPattern_turns.find?_eq_none ?_ start
    rintro m v r ⟨-, @⟨d, w, -, hd, -, -⟩ | @⟨s, -⟩⟩ he
    · have ht := (List.cons.inj he).2
      exact (h.closes t List.suffix_rfl).ne_link hd (ht.trans (List.append_assoc ..))
    · exact h.ne_mention (s ++ [']'] ++ r) (by simpa using he)
  · exact find?_linkPattern_of_ne hc start _

theorem Prose.keeps (h : Prose t) : linkPattern.Keeps t := by
  have anywhere : linkPattern.Anywhere := fun _ => rfl
  induction t with
  | nil => exact fun _ => rfl
  | cons c t ih => exact anywhere.keeps_cons (h.find?_linkPattern false) (ih h.of_cons)

theorem replaceFrom_linkPattern_passages {xs : List (Text × Text)}
    (h : ∀ x ∈ xs, LinkMarker x.1 ∧ Prose x.2) :
    linkPattern.replaceFrom false (xs.flatMap fun x => x.1 ++ x.2) = xs.flatMap (·.2) := by
  induction xs with
  | nil => exact replaceFrom_nil ..
  | cons x xs ih =>
    obtain ⟨⟨hm, hp⟩, h⟩ := List.forall_mem_cons.mp h
    rw [List.flatMap_cons, List.flatMap_cons, List.append_assoc,
      replaceFrom_of_find? (find?_linkPattern_marker hm false _), hp.keeps, ih h, List.nil_append]

/-- Where prose and links take turns, the links are left out and the prose stays. -/
theorem apply_stripLinks_passages {p : Text} {xs : List (Text × Text)} (hp : Prose p)
    (h : ∀ x ∈ xs, LinkMarker x.1 ∧ Prose x.2) :
    Rule.stripLinks.apply (p ++ xs.flatMap fun x => x.1 ++ x.2) = p ++ xs.flatMap (·.2) := by
  have anywhere : linkPattern.Anywhere := fun _ => rfl
  show linkPattern.replace _ = _
  rw [replace, anywhere.replaceFrom_true, hp.keeps, replaceFrom_linkPattern_passages h]

/-- Brackets within a label and a target, a bar in a mention, and two links side by side. -/
theorem apply_stripLinks_passages_nested :
    Prose "a | b [WIP] [open\n".toList ∧
    (∀ x ∈ [("[a[b|c|[d]".toList, "] and [x]|".toList), ("[~accountid|5]".toList, []),
      ("[~accountid]".toList, " c".toList)], LinkMarker x.1 ∧ Prose x.2) ∧
    Rule.stripLinks.apply
        "a | b [WIP] [open\n[a[b|c|[d]] and [x]|[~accountid|5][~accountid] c".toList =
      "a | b [WIP] [open\n] and [x]| c".toList := by
  have hp : Prose "a | b [WIP] [open\n".toList := by decide
  have nested : LinkMarker "[a[b|c|[d]".toList :=
    .link (d := "a[b".toList) (u := "c|[d".toList) (by decide) (by decide) (by decide) (by decide)
  have h : ∀ x ∈ [("[a[b|c|[d]".toList, "] and [x]|".toList), ("[~accountid|5]".toList, []),
      ("[~accountid]".toList, " c".toList)], LinkMarker x.1 ∧ Prose x.2 := by
    simp only [List.forall_mem_cons]
    refine ⟨⟨nested, by decide⟩, ⟨?_, by decide⟩, ⟨?_, by decide⟩, by simp⟩
    · exact .mention (s := "|5".toList) (by decide)
    · exact .mention (s := []) (by decide)
  exact ⟨hp, h, apply_stripLinks_passages hp h⟩

end IssueMarkdown.Markup
