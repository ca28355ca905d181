import IssueMarkdown.Proofs.Recognition
import IssueMarkdown.Site
import Mathlib.Data.List.Basic

/-! # The address of a site

A value is rid of the blanks around it first, and then of the slashes it ends in. What is left is
an address that can be used, and resolving it again changes nothing, unless the slashes stand alone
or after a blank: then it is empty or ends in that blank, and it hides the organisation all the
same.
-/

namespace IssueMarkdown

open Text

variable {base org : Option Text} {raw t u : Text}

/-- Nothing but blanks is given, or nothing at all. -/
def IsBlank (value : Option Text) : Prop := ∀ t ∈ value, ∀ c ∈ t, isBlank c

/-- An address without blanks around it and without a slash at its end. -/
structure Usable (u : Text) : Prop where
  ne_nil : u ≠ []
  head : ∀ c ∈ u.head?, isBlank c = false
  last : ∀ c ∈ u.getLast?, isBlank c = false ∧ c ≠ '/'

/-- A value whose last slashes have nothing or a blank before them. -/
inductive Stray : Text → Prop where
  | intro {t s b : Text} (ht : ∀ c ∈ t.getLast?, isBlank c) (hs : ∀ c ∈ s, c = '/') (hn : s ≠ [])
      (hb : ∀ c ∈ b, isBlank c) : Stray (t ++ (s ++ b))

/-! ## Values -/

theorem trims_nil_iff : Trims raw [] ↔ ∀ c ∈ raw, isBlank c := by
  constructor
  · rintro ⟨⟨a, b, ha, hb, rfl⟩, -, -⟩
    exact List.forall_mem_append.mpr ⟨ha, hb⟩
  · exact fun h => ⟨⟨raw, [], h, nofun, by simp⟩, nofun, nofun⟩

theorem nonblank?_eq_none_iff : nonblank? raw = none ↔ ∀ c ∈ raw, isBlank c := by
  rw [nonblank?, ← trims_nil_iff, ← trim_eq_iff]
  simp

theorem nonblank?_eq_some_iff : nonblank? raw = some t ↔ Trims raw t ∧ t ≠ [] := by
  rw [nonblank?, ← trim_eq_iff]
  constructor
  · intro h
    split at h
    · exact absurd h (Option.some_ne_none _).symm
    · next hn =>
      obtain rfl := Option.some.inj h
      exact ⟨rfl, by simpa using hn⟩
  · rintro ⟨rfl, hn⟩
    rw [if_neg (by simpa using hn)]

theorem bind_nonblank?_eq_none_iff {value : Option Text} :
    value.bind nonblank? = none ↔ IsBlank value := by
  simp only [Option.bind_eq_none_iff, nonblank?_eq_none_iff, IsBlank, Option.mem_def]

theorem bind_nonblank?_eq_some_iff {value : Option Text} :
    value.bind nonblank? = some t ↔ ∃ raw ∈ value, Trims raw t ∧ t ≠ [] := by
  simp only [Option.bind_eq_some_iff, nonblank?_eq_some_iff, Option.mem_def]

/-! ## Slashes at the end -/

theorem forall_getLast?_append {p : Char → Prop} {s t : Text} (hs : ∀ c ∈ s.getLast?, p c)
    (ht : ∀ c ∈ t.getLast?, p c) : ∀ c ∈ (s ++ t).getLast?, p c := by
  intro c hc
  rw [List.getLast?_append, Option.mem_def, Option.or_eq_some_iff] at hc
  rcases hc with hc | ⟨-, hc⟩
  · exact ht c hc
  · exact hs c hc

theorem ne_slash_of_isBlank {c : Char} (h : isBlank c) : (c == '/') = false := by
  rw [beq_eq_false_iff_ne]
  rintro rfl
  exact absurd h (by decide)

theorem exists_siteRoot_append (t : Text) : ∃ s, (∀ c ∈ s, c = '/') ∧ t = siteRoot t ++ s := by
  obtain ⟨s, hs, ht⟩ := exists_dropEndWhile_append (· == '/') t
  exact ⟨s, fun c hc => eq_of_beq (hs c hc), ht⟩

theorem getLast?_siteRoot (t : Text) : ∀ c ∈ (siteRoot t).getLast?, c ≠ '/' := by
  intro c hc
  rw [siteRoot, dropEndWhile, List.getLast?_reverse] at hc
  simpa using head?_dropWhile (· == '/') t.reverse c hc

theorem head?_siteRoot (ht : ∀ c ∈ t.head?, isBlank c = false) :
    ∀ c ∈ (siteRoot t).head?, isBlank c = false := by
  obtain ⟨s, -, hts⟩ := exists_siteRoot_append t
  intro c hc
  refine ht c ?_
  rw [hts, List.head?_append, Option.mem_def.mp hc]
  rfl

theorem Usable.siteRoot_eq (h : Usable u) : siteRoot u = u :=
  dropEndWhile_of_stop fun c hc => beq_false_of_ne (h.last c hc).2

theorem Usable.trims (h : Usable u) : Trims u u where
  around := ⟨[], [], nofun, nofun, by simp⟩
  head := h.head
  last c hc := (h.last c hc).1

/-- What is left of a trimmed value without its slashes is usable unless it ends in a blank, or is
nothing. -/
theorem usable_siteRoot_iff (ht : ∀ c ∈ t.head?, isBlank c = false) :
    Usable (siteRoot t) ↔ ¬ ∀ c ∈ (siteRoot t).getLast?, isBlank c := by
  constructor
  · intro h blank
    obtain ⟨c, hc⟩ := Option.isSome_iff_exists.mp (List.getLast?_isSome.mpr h.ne_nil)
    exact absurd (blank c hc) (by simp [(h.last c hc).1])
  · intro h
    obtain ⟨c, hc, visible⟩ : ∃ c ∈ (siteRoot t).getLast?, isBlank c = false := by simpa using h
    refine ⟨fun hn => by simp [hn] at hc, head?_siteRoot ht, fun d hd => ?_⟩
    obtain rfl : c = d := Option.some.inj (hc.symm.trans hd)
    exact ⟨visible, getLast?_siteRoot t c hc⟩

theorem stray_iff (h : Trims raw t) (hn : t ≠ []) :
    Stray raw ↔ ∀ c ∈ (siteRoot t).getLast?, isBlank c := by
  obtain ⟨⟨a, b, ha, hb, rfl⟩, -, last⟩ := h
  obtain ⟨s, hs, hts⟩ := exists_siteRoot_append t
  have lastBlank : ∀ c ∈ a.getLast?, isBlank c := fun c hc => ha c (List.mem_of_getLast? hc)
  constructor
  · intro hr c hc
    generalize hraw : a ++ (t ++ b) = raw at hr
    obtain @⟨t', s', b', ht', hs', hn', hb'⟩ := hr
    -- without the blanks behind it, and then without its slashes, the value is read in one way
    have visible : ∀ c ∈ (a ++ t).getLast?, isBlank c = false := by
      rwa [List.getLast?_append_of_ne_nil _ hn]
    have slash : ∀ c ∈ (t' ++ s').getLast?, isBlank c = false := by
      intro c hc
      rw [List.getLast?_append_of_ne_nil _ hn'] at hc
      rw [hs' c (List.mem_of_getLast? hc)]
      decide
    have trimmed : a ++ siteRoot t ++ s = t' ++ s' := by
      rw [List.append_assoc, ← hts, ← dropEndWhile_append_of_stop hb visible,
        ← dropEndWhile_append_of_stop hb' slash, List.append_assoc, List.append_assoc, hraw]
    have rooted : a ++ siteRoot t = t' := by
      have stop : ∀ c ∈ (a ++ siteRoot t).getLast?, (c == '/') = false :=
        forall_getLast?_append (fun c hc => ne_slash_of_isBlank (lastBlank c hc))
          fun c hc => beq_false_of_ne (getLast?_siteRoot t c hc)
      have stop' : ∀ c ∈ t'.getLast?, (c == '/') = false := fun c hc =>
        ne_slash_of_isBlank (ht' c hc)
      rw [← dropEndWhile_append_of_stop (fun c hc => beq_of_eq (hs c hc)) stop, trimmed,
        dropEndWhile_append_of_stop (fun c hc => beq_of_eq (hs' c hc)) stop']
    refine ht' c ?_
    rw [← rooted, List.getLast?_append, Option.mem_def.mp hc]
    rfl
  · intro blank
    rw [hts, List.append_assoc, ← List.append_assoc]
    refine .intro (forall_getLast?_append lastBlank blank) hs ?_ hb
    rintro rfl
    rw [List.append_nil] at hts
    obtain ⟨c, hc⟩ := Option.isSome_iff_exists.mp (List.getLast?_isSome.mpr hn)
    exact absurd (blank c (hts ▸ hc)) (by simp [last c hc])

theorem IsBlank.not_stray (h : ∀ c ∈ raw, isBlank c) : ¬ Stray raw := by
  rintro ⟨-, hs, hn, -⟩
  obtain ⟨c, hc⟩ := List.exists_mem_of_ne_nil _ hn
  have blank := h c (List.mem_append_right _ (List.mem_append_left _ hc))
  rw [hs c hc] at blank
  exact absurd blank (by decide)

/-! ## Resolution -/

/-- The address of an organisation. -/
def organisationUrl (org : Text) : Text := "https://".toList ++ org ++ ".atlassian.net".toList

theorem usable_organisationUrl (org : Text) : Usable (organisationUrl org) := by
  have first : "https://".toList.head? = some 'h' := by decide
  have last : ".atlassian.net".toList.getLast? = some 't' := by decide
  unfold organisationUrl
  -- the literals are set aside, lest they are evaluated
  generalize "https://".toList = scheme, ".atlassian.net".toList = domain at first last
  have head : (scheme ++ org ++ domain).head? = some 'h' := by simp [first]
  have getLast : (scheme ++ org ++ domain).getLast? = some 't' := by simp [last]
  refine ⟨fun hn => by simp [hn] at head, ?_, ?_⟩
  · rw [head]
    rintro _ ⟨⟩
    decide
  · rw [getLast]
    rintro _ ⟨⟩
    decide

/-- There is no address, or it is that of the organisation, or what is left of the one given. -/
theorem resolveBaseUrl?_cases (base org : Option Text) :
    (resolveBaseUrl? base org = none ∧ IsBlank base ∧ IsBlank org) ∨
    (∃ t, resolveBaseUrl? base org = some (organisationUrl t) ∧ IsBlank base ∧ ¬ IsBlank org) ∨
    ∃ raw t, base = some raw ∧ Trims raw t ∧ t ≠ [] ∧
      ∀ o, resolveBaseUrl? base o = some (siteRoot t) := by
  cases hb : base.bind nonblank? with
  | none =>
    have blank := bind_nonblank?_eq_none_iff.mp hb
    cases ho : org.bind nonblank? with
    | none => exact .inl ⟨by rw [resolveBaseUrl?, hb, ho], blank, bind_nonblank?_eq_none_iff.mp ho⟩
    | some t =>
      refine .inr (.inl ⟨t, by rw [resolveBaseUrl?, hb, ho]; rfl, blank, fun h => ?_⟩)
      exact absurd (ho.symm.trans (bind_nonblank?_eq_none_iff.mpr h)) (Option.some_ne_none _)
  | some t =>
    obtain ⟨raw, hraw, ht, hn⟩ := bind_nonblank?_eq_some_iff.mp hb
    exact .inr (.inr ⟨raw, t, hraw, ht, hn, fun o => by rw [resolveBaseUrl?, hb]⟩)

/-- An address is resolved to itself exactly if it can be used. -/
theorem resolveBaseUrl?_some_eq_some_iff {o : Option Text} :
    resolveBaseUrl? (some u) o = some u ↔ Usable u := by
  constructor
  · intro h
    rcases resolveBaseUrl?_cases (some u) o with ⟨hn, -⟩ | ⟨t, ht, -⟩ | ⟨raw, t, hr, ht, hn, hu⟩
    · exact absurd (hn.symm.trans h) (Option.some_ne_none _).symm
    · obtain rfl := Option.some.inj (ht.symm.trans h)
      exact usable_organisationUrl t
    · obtain rfl := Option.some.inj hr
      have root : siteRoot t = u := Option.some.inj ((hu o).symm.trans h)
      -- nothing was taken off, so that the value was trimmed and had no slash at its end
      have whole : t = u := by
        obtain ⟨a, b, -, -, hab⟩ := ht.around
        obtain ⟨s, -, hts⟩ := exists_siteRoot_append t
        rw [root] at hts
        have length := congrArg List.length hab
        simp only [hts, List.length_append] at length
        rw [hts, List.eq_nil_of_length_eq_zero (by omega : s.length = 0), List.append_nil]
      subst whole
      exact ⟨hn, ht.head, fun c hc => ⟨ht.last c hc, getLast?_siteRoot t c (root.symm ▸ hc)⟩⟩
  · intro h
    have nonblank : (some u).bind nonblank? = some u :=
      bind_nonblank?_eq_some_iff.mpr ⟨u, rfl, h.trims, h.ne_nil⟩
    rw [resolveBaseUrl?, nonblank]
    exact congrArg some h.siteRoot_eq

/-- There is no address exactly if nothing is given. One that is resolved can be used, and resolving
it again gives it back, exactly if the value it comes from has no stray slashes at its end. A value
that is not blank hides the organisation whatever is left of it. -/
theorem resolveBaseUrl?_stable_iff (base org : Option Text) :
    (resolveBaseUrl? base org = none ↔ IsBlank base ∧ IsBlank org) ∧
    ∀ u, resolveBaseUrl? base org = some u →
      (∀ c ∈ u.head?, isBlank c = false) ∧ (∀ c ∈ u.getLast?, c ≠ '/') ∧
      (Usable u ↔ ∀ raw ∈ base, ¬ Stray raw) ∧
      (∀ o, resolveBaseUrl? (some u) o = some u ↔ ∀ raw ∈ base, ¬ Stray raw) ∧
      (¬ IsBlank base → ∀ o, resolveBaseUrl? base o = some u) := by
  simp only [resolveBaseUrl?_some_eq_some_iff]
  rcases resolveBaseUrl?_cases base org with
    ⟨h, hb, ho⟩ | ⟨t, h, hb, ho⟩ | ⟨raw, t, rfl, ht, hn, hu⟩
  · refine ⟨iff_of_true h ⟨hb, ho⟩, fun u hu => ?_⟩
    exact absurd (h.symm.trans hu) (Option.some_ne_none _).symm
  · refine ⟨iff_of_false (h ▸ Option.some_ne_none _) fun hbo => ho hbo.2, fun u hu => ?_⟩
    obtain rfl := Option.some.inj (h.symm.trans hu)
    have usable := usable_organisationUrl t
    have tidy : ∀ raw ∈ base, ¬ Stray raw := fun raw hr => IsBlank.not_stray (hb raw hr)
    exact ⟨usable.head, fun c hc => (usable.last c hc).2, iff_of_true usable tidy,
      fun _ => iff_of_true usable tidy, fun hb' => absurd hb hb'⟩
  · have given : ¬ IsBlank (some raw) := fun hb =>
      absurd ((ht.trim_eq.symm.trans (trims_nil_iff.mpr (hb raw rfl)).trim_eq)) hn
    refine ⟨iff_of_false (hu org ▸ Option.some_ne_none _) fun hbo => given hbo.1, fun u h => ?_⟩
    obtain rfl := Option.some.inj ((hu org).symm.trans h)
    have usable : Usable (siteRoot t) ↔ ∀ raw' ∈ some raw, ¬ Stray raw' := by
      rw [usable_siteRoot_iff ht.head, ← stray_iff ht hn]
      simp
    exact ⟨head?_siteRoot ht.head, getLast?_siteRoot t, usable, fun _ => usable, fun _ => hu⟩

/-- A value with blanks around it and slashes behind is resolved to an address that can be used. -/
theorem resolveBaseUrl?_stable_iff_spaced :
    resolveBaseUrl? (some " http://a// ".toList) (some ['b']) = some "http://a".toList ∧
    resolveBaseUrl? (some "http://a".toList) (some ['b']) = some "http://a".toList := by
  obtain ⟨-, resolved⟩ := resolveBaseUrl?_stable_iff (some " http://a// ".toList) (some ['b'])
  have spaced : resolveBaseUrl? (some " http://a// ".toList) (some ['b']) =
      some "http://a".toList := by decide +kernel
  have first : "http://a".toList.head? = some 'h' := by decide +kernel
  have last : "http://a".toList.getLast? = some 'a' := by decide +kernel
  have usable : Usable "http://a".toList := by
    refine ⟨by decide, fun c hc => ?_, fun c hc => ?_⟩
    · obtain rfl := Option.some.inj (first.symm.trans hc)
      decide +kernel
    · obtain rfl := Option.some.inj (last.symm.trans hc)
      decide +kernel
  obtain ⟨-, -, tidy, stable, -⟩ := resolved _ spaced
  exact ⟨spaced, (stable _).mpr (tidy.mp usable)⟩

/-- A value that is a single slash names no site and still hides the organisation, and of an address
with a blank before its slash the blank stays. -/
theorem resolveBaseUrl?_stray :
    resolveBaseUrl? (some ['/']) (some "acme".toList) = some [] ∧
    resolveBaseUrl? (some []) (some "acme".toList) = some "https://acme.atlassian.net".toList ∧
    resolveBaseUrl? (some "http://a /".toList) none = some "http://a ".toList ∧
    resolveBaseUrl? (some "http://a ".toList) none = some "http://a".toList := by
  decide +kernel

end IssueMarkdown
