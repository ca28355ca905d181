import IssueMarkdown.Markup.Rule
import IssueMarkdown.Proofs.Lines

/-! # Colour markers

A hit is one marker with at most one star on either side. It does not depend on what
stands below its line.
-/

namespace IssueMarkdown.Markup

open Text Pattern

def colourWord : Text := ['{', 'c', 'o', 'l', 'o', 'r']

/-- A colour marker: the word in either case, with six hexadecimal digits, three or none. -/
inductive ColourMarker : Text → Prop where
  | plain {w : Text} (word : w.map Char.toLower = colourWord) : ColourMarker (w ++ ['}'])
  | valued {w d : Text} (word : w.map Char.toLower = colourWord)
      (size : d.length = 6 ∨ d.length = 3) (hex : ∀ c ∈ d, isHex c) :
      ColourMarker (w ++ ':' :: '#' :: (d ++ ['}']))

variable {t r : Text}

theorem colourValue?_eq_some_iff : colourValue? t = some r ↔
    ∃ d, (d.length = 6 ∨ d.length = 3) ∧ (∀ c ∈ d, isHex c) ∧
      t = ':' :: '#' :: (d ++ '}' :: r) := by
  simp only [colourValue?, Option.bind_eq_some_iff, Option.or_eq_some_iff, after?_eq_some_iff,
    exactly?_eq_some_iff]
  constructor
  · rintro ⟨_, rfl, ⟨_, ⟨d, hd, hx, rfl⟩, rfl⟩ | ⟨-, _, ⟨d, hd, hx, rfl⟩, rfl⟩⟩
    · exact ⟨d, .inl hd, hx, rfl⟩
    · exact ⟨d, .inr hd, hx, rfl⟩
  · rintro ⟨d, hd | hd, hx, rfl⟩
    · exact ⟨_, rfl, .inl ⟨_, ⟨d, hd, hx, rfl⟩, rfl⟩⟩
    · refine ⟨d ++ '}' :: r, rfl, .inr ⟨?_, _, ⟨d, hd, hx, rfl⟩, rfl⟩⟩
      -- six digits cannot be found in three, and the brace is none
      have six : exactly? isHex 6 d = none := by
        by_contra hs
        obtain ⟨s, hs⟩ := Option.ne_none_iff_exists'.mp hs
        have := length_exactly? hs
        omega
      rw [stopsAt_exactly? (x := '}') rfl d r, six]
      rfl

theorem colour?_eq_some_iff : colour? t = some r ↔ ∃ m, ColourMarker m ∧ t = m ++ r := by
  simp only [colour?, Option.bind_eq_some_iff, Option.or_eq_some_iff, after?_eq_some_iff,
    afterAnyCase?_eq_some_iff, colourValue?_eq_some_iff]
  constructor
  · rintro ⟨_, ⟨w, hw, rfl⟩, rfl | ⟨-, d, hd, hx, rfl⟩⟩
    · exact ⟨_, .plain hw, by simp⟩
    · exact ⟨_, .valued hw hd hx, by simp⟩
  · rintro ⟨_, ⟨hw⟩ | ⟨hw, hd, hx⟩, rfl⟩
    · exact ⟨_, ⟨_, hw, List.append_assoc ..⟩, .inl rfl⟩
    · exact ⟨_, ⟨_, hw, List.append_assoc ..⟩, .inr ⟨rfl, _, hd, hx, by simp⟩⟩

/-- At most one star. -/
def IsStar (u : Text) : Prop := u = [] ∨ u = ['*']

theorem exists_star_append_dropStar (t : Text) :
    ∃ a, IsStar a ∧ t = a ++ dropStar t ∧ (a = [] → (dropStar t).head? ≠ some '*') := by
  unfold dropStar
  split
  · exact ⟨['*'], .inr rfl, rfl, by simp⟩
  · rename_i hs
    refine ⟨[], .inl rfl, rfl, fun _ he => ?_⟩
    obtain ⟨r, rfl⟩ := List.head?_eq_some_iff.mp he
    exact hs r rfl

/-- A colour marker with a star or none on either side. -/
def StarredColour (u : Text) : Prop :=
  ∃ a m b, IsStar a ∧ ColourMarker m ∧ IsStar b ∧ u = a ++ m ++ b

/-- A hit takes the star after the marker if there is one. -/
theorem find?_colourPattern_sound {start : Bool} {h : Hit}
    (hit : colourPattern.find? start t = some h) : ∃ a m b, IsStar a ∧ ColourMarker m ∧ IsStar b ∧
      (b = [] → h.rest.head? ≠ some '*') ∧ t = a ++ m ++ b ++ h.rest ∧ h.out = ['*', '*'] := by
  obtain ⟨r, hr, rfl⟩ := Option.map_eq_some_iff.mp hit
  obtain ⟨s, hs, rfl⟩ := Option.map_eq_some_iff.mp hr
  obtain ⟨m, hm, he⟩ := colour?_eq_some_iff.mp hs
  obtain ⟨a, ha, hat, -⟩ := exists_star_append_dropStar t
  obtain ⟨b, hb, hbs, hrest⟩ := exists_star_append_dropStar s
  refine ⟨a, m, b, ha, hm, hb, hrest, ?_, rfl⟩
  calc t = a ++ (m ++ s) := by rw [← he, ← hat]
    _ = a ++ (m ++ (b ++ dropStar s)) := by rw [← hbs]
    _ = a ++ m ++ b ++ dropStar s := by simp

theorem colourPattern_turns :
    colourPattern.Turns fun u v => v = ['*', '*'] ∧ StarredColour u := by
  intro start t h hit
  obtain ⟨a, m, b, ha, hm, hb, -, ht, hout⟩ := find?_colourPattern_sound hit
  exact ⟨a ++ m ++ b, ht, hout, a, m, b, ha, hm, hb, rfl⟩

theorem ColourMarker.eq_brace_cons {m : Text} (h : ColourMarker m) :
    ∃ c u, m = '{' :: c :: u ∧ c.toLower = 'c' := by
  rcases h with ⟨hw⟩ | ⟨hw, -, -⟩ <;>
  · obtain ⟨v, rfl, hv⟩ := Text.eq_brace_cons hw
    obtain ⟨c, u, rfl, hc, -⟩ := List.map_eq_cons_iff.mp hv
    exact ⟨c, _, rfl, hc⟩

theorem ColourMarker.brace_notMem_tail {m : Text} (h : ColourMarker m) : '{' ∉ m.tail := by
  have body : ∀ {w : Text}, w.map Char.toLower = colourWord → ∃ v, w = '{' :: v ∧ '{' ∉ v := by
    intro w hw
    obtain ⟨v, rfl, hv⟩ := Text.eq_brace_cons hw
    exact ⟨v, rfl, notMem_of_map_toLower hv (by decide)⟩
  rcases h with ⟨word⟩ | ⟨word, -, hex⟩
  · obtain ⟨v, rfl, hv⟩ := body word
    simp [hv]
  · obtain ⟨v, rfl, hv⟩ := body word
    have hd : '{' ∉ _ := fun hm => absurd (hex _ hm) (by decide)
    simp [hv, hd]

theorem ColourMarker.notMem {m : Text} {x : Char} (h : ColourMarker m)
    (hw : x.toLower ∉ colourWord) (hx : isHex x = false) (hv : x ∉ [':', '#', '}']) : x ∉ m := by
  simp only [List.mem_cons, List.not_mem_nil, or_false, not_or] at hv
  obtain ⟨h₁, h₂, h₃⟩ := hv
  rcases h with ⟨word⟩ | ⟨word, -, hex⟩
  · have := notMem_of_map_toLower word hw
    simp [this, h₃]
  · have := notMem_of_map_toLower word hw
    have hd : x ∉ _ := fun hm => by simpa [hx] using hex x hm
    simp [this, h₁, h₂, h₃, hd]

theorem StarredColour.lineFeed_notMem {u : Text} (h : StarredColour u) : '\n' ∉ u := by
  obtain ⟨a, m, b, ha, hm, hb, rfl⟩ := h
  have := hm.notMem (x := '\n') (by decide) rfl (by decide)
  rcases ha with rfl | rfl <;> rcases hb with rfl | rfl <;> simp [this]

theorem stopsAt_colour? : StopsAt '\n' colour? :=
  (stopsAt_afterBy? (by decide)).bind ((stopsAt_after? (by decide)).or
    ((stopsAt_after? (by decide)).bind
      (((stopsAt_exactly? rfl).bind (stopsAt_after? (by decide))).or
        ((stopsAt_exactly? rfl).bind (stopsAt_after? (by decide))))))

theorem dropStar_append {x : Char} (hx : x ≠ '*') (s t : Text) :
    dropStar (s ++ x :: t) = dropStar s ++ x :: t := by
  cases s with
  | nil => simp [dropStar, hx]
  | cons c s =>
    by_cases hc : c = '*'
    · subst hc; rfl
    · simp [dropStar, hc]

theorem stopsAt_starredColour? : StopsAt '\n' starredColour? := by
  intro s t
  have hs : ∀ s, dropStar (s ++ '\n' :: t) = dropStar s ++ '\n' :: t := fun s =>
    dropStar_append (by decide) s t
  simp only [starredColour?, hs, stopsAt_colour? _ t, Option.map_map]
  congr 1
  funext r
  exact hs r

theorem lineLocal_colourPattern : colourPattern.LineLocal where
  breaksLine := rfl
  find?_append := find?_append_of_stopsAt (fun _ _ => rfl) stopsAt_starredColour?
  count_replace := colourPattern_turns.count_replaceFrom fun u v h => by
    obtain ⟨rfl, hu⟩ := h
    rw [List.count_eq_zero.mpr hu.lineFeed_notMem]
    rfl

/-! ## Braces that are no marker -/

section Braces

variable {c : Char} {s : Text} {start : Bool}

theorem ColourMarker.exists_body {m : Text} (h : ColourMarker m) :
    ∃ b, m = b ++ ['}'] ∧ '}' ∉ b ∧ (b.map Char.toLower = colourWord ∨ ':' ∈ b) := by
  rcases h with @⟨w, hw⟩ | @⟨w, d, hw, -, hx⟩
  · exact ⟨w, rfl, notMem_of_map_toLower hw (by decide), .inl hw⟩
  · have hwb := notMem_of_map_toLower (x := '}') hw (by decide)
    have hd : '}' ∉ d := fun hm => absurd (hx _ hm) (by decide)
    exact ⟨w ++ ':' :: '#' :: d, by simp, by simp [hwb, hd], .inr (by simp)⟩

theorem find?_colourPattern_eq_none (h : ∀ m r, ColourMarker m → c :: t ≠ m ++ r) (hc : c ≠ '*') :
    colourPattern.find? start (c :: t) = none := by
  refine colourPattern_turns.find?_eq_none ?_ start
  rintro u v r ⟨-, a, m, b, rfl | rfl, hm, -, rfl⟩ he
  · exact h m (b ++ r) hm (by simpa using he)
  · exact hc (List.cons.inj he).1

theorem passes_colourPattern : colourPattern.PassesBut ['*', '{', '\n'] := by
  refine colourPattern_turns.passesBut ?_ (by simp [colourPattern, isLineFeed])
  rintro u v ⟨-, a, m, b, ha, hm, -, rfl⟩
  obtain ⟨d, w, rfl, -⟩ := hm.eq_brace_cons
  rcases ha with rfl | rfl
  · exact ⟨'{', by simp, _, rfl⟩
  · exact ⟨'*', by simp, _, rfl⟩

theorem find?_colourPattern_brace (h : c.toLower ≠ 'c') (t : Text) :
    colourPattern.find? start ('{' :: c :: t) = none := by
  refine find?_colourPattern_eq_none (fun m r hm he => ?_) (by decide)
  obtain ⟨d, u, rfl, hd⟩ := hm.eq_brace_cons
  obtain ⟨rfl, -⟩ := List.cons.inj (List.cons.inj he).2
  exact h hd

theorem find?_colourPattern_span (hb : '}' ∉ s) (hc : ':' ∉ s)
    (hw : '{' :: s.map Char.toLower ≠ colourWord) (t : Text) :
    colourPattern.find? start ('{' :: (s ++ '}' :: t)) = none := by
  refine find?_colourPattern_eq_none (fun m r hm he => ?_) (by decide)
  obtain ⟨b, rfl, hbb, hword⟩ := hm.exists_body
  rw [List.append_assoc, ← List.cons_append] at he
  obtain ⟨rfl, -⟩ := first_split_unique (by simpa using hb) hbb he
  rcases hword with hword | hv
  · exact hw hword
  · simp [hc] at hv

end Braces

theorem keeps_quoteMarker_colourPattern : colourPattern.Keeps quoteMarker := by
  have tail : colourPattern.Keeps quoteMarker.tail := passes_colourPattern.keeps (by decide)
  exact tail.cons (fun t => find?_colourPattern_brace (by decide) _) rfl

theorem find?_colourPattern_marker {a b m : Text} (ha : IsStar a) (hm : ColourMarker m)
    (hb : IsStar b) (ht : b = [] → t.head? ≠ some '*') (start : Bool) :
    colourPattern.find? start (a ++ m ++ b ++ t) = some ⟨['*', '*'], t⟩ := by
  have hbt : dropStar (b ++ t) = t := by
    rcases hb with rfl | rfl
    · cases t with
      | nil => rfl
      | cons c t =>
        have hc : c ≠ '*' := by simpa using ht rfl
        simp [dropStar, hc]
    · rfl
  have hat : dropStar (a ++ m ++ b ++ t) = m ++ (b ++ t) := by
    obtain ⟨c, u, rfl, -⟩ := hm.eq_brace_cons
    rcases ha with rfl | rfl <;> simp [dropStar]
  have hr : colour? (m ++ (b ++ t)) = some (b ++ t) := colour?_eq_some_iff.mpr ⟨m, hm, rfl⟩
  simp only [colourPattern, starredColour?, hat, hr, Option.map_some, hbt]

theorem find?_colourPattern_ne_none {a m : Text} (ha : IsStar a) (hm : ColourMarker m)
    (start : Bool) (t : Text) : colourPattern.find? start (a ++ m ++ t) ≠ none := by
  obtain ⟨b, hb, ht, hrest⟩ := exists_star_append_dropStar t
  rw [ht, ← List.append_assoc, find?_colourPattern_marker ha hm hb hrest]
  exact Option.some_ne_none _

/-! ## Passages between markers -/

/-- A text without colour markers. -/
def Unmarked (t : Text) : Prop := ∀ m, ColourMarker m → ¬ m <:+: t

/-- A text without the one emphasis star it may end with. -/
def dropEndStar (t : Text) : Text := (dropStar t.reverse).reverse

/-- Passages without markers, with a marker before each but the first. -/
structure Coloured where
  lead : Text
  rest : List (Text × Text)
  unmarked_lead : Unmarked lead
  forall_rest : ∀ x ∈ rest, ColourMarker x.1 ∧ Unmarked x.2

def Coloured.text (a : Coloured) : Text := a.lead ++ a.rest.flatMap fun x => x.1 ++ x.2

/-- Passages with bold markers between them, without the stars next to a marker. -/
def boldPassages : Text → List (Text × Text) → Text
  | p, [] => p
  | p, (_, q) :: xs => dropEndStar p ++ '*' :: '*' :: boldPassages (dropStar q) xs

section Passages

variable {c : Char} {m p q s : Text} {xs : List (Text × Text)}

theorem dropEndStar_cons (h : c :: p ≠ ['*']) : dropEndStar (c :: p) = c :: dropEndStar p := by
  rcases List.eq_nil_or_concat p with rfl | ⟨p, d, rfl⟩
  · have hc : c ≠ '*' := fun he => h (by rw [he])
    simp [dropEndStar, dropStar, hc]
  · by_cases hd : d = '*'
    · simp [dropEndStar, dropStar, hd]
    · simp [dropEndStar, dropStar, hd]

theorem dropStar_isSuffix (t : Text) : dropStar t <:+ t := by
  obtain ⟨a, -, ht, -⟩ := exists_star_append_dropStar t
  exact ⟨a, ht.symm⟩

theorem dropEndStar_isPrefix (t : Text) : dropEndStar t <+: t := by
  rw [dropEndStar, ← List.reverse_suffix, List.reverse_reverse]
  exact dropStar_isSuffix t.reverse

theorem Unmarked.of_infix (h : Unmarked t) (hs : s <:+: t) : Unmarked s :=
  fun m hm hi => h m hm (hi.trans hs)

theorem Unmarked.of_cons (h : Unmarked (c :: t)) : Unmarked t :=
  h.of_infix (List.suffix_cons c t).isInfix

theorem unmarked_dropStar (h : Unmarked t) : Unmarked (dropStar t) :=
  h.of_infix (dropStar_isSuffix t).isInfix

theorem unmarked_dropEndStar (h : Unmarked t) : Unmarked (dropEndStar t) :=
  h.of_infix (dropEndStar_isPrefix t).isInfix

theorem unmarked_nil : Unmarked [] := by
  intro m hm hi
  obtain ⟨d, u, rfl, -⟩ := hm.eq_brace_cons
  simpa using List.infix_nil.mp hi

/-- No star stands in a marker, so none reaches over one. -/
theorem Unmarked.append_star (hs : Unmarked s) (ht : Unmarked t) : Unmarked (s ++ '*' :: t) := by
  intro m hm hi
  have hx : '*' ∉ m := hm.notMem (by decide) rfl (by decide)
  rcases infix_or_infix_of_append_cons hx hi with h | h
  · exact hs m hm h
  · exact ht m hm h

/-- A marker has no opening brace but its first, so none begins in a passage and ends in a marker
after it. -/
theorem Unmarked.ne_marker {n : Text} (hp : Unmarked p) (hne : p ≠ []) (hm : ColourMarker m)
    (hn : ColourMarker n) : p ++ (m ++ r) ≠ n ++ s := by
  intro he
  rcases List.append_eq_append_iff.mp he with ⟨d, rfl, hd⟩ | ⟨d, rfl, -⟩
  · obtain ⟨c, u, rfl, -⟩ := hm.eq_brace_cons
    have hb := hn.brace_notMem_tail
    cases d with
    | nil => exact hp p (by simpa using hn) List.infix_rfl
    | cons x d =>
      obtain ⟨rfl, -⟩ := List.cons.inj hd
      obtain ⟨y, p, rfl⟩ := List.exists_cons_of_ne_nil hne
      simp at hb
  · exact hp n hn (List.prefix_append n d).isInfix

theorem anywhere_colourPattern : colourPattern.Anywhere := fun _ => rfl

theorem Unmarked.find?_eq_none (h : Unmarked t) (start : Bool) :
    colourPattern.find? start t = none := by
  refine colourPattern_turns.find?_eq_none ?_ start
  rintro u v r ⟨-, a, m, b, -, hm, -, rfl⟩ rfl
  exact h m hm ⟨a, b ++ r, by simp⟩

theorem Unmarked.replaceFrom_eq_self (h : Unmarked t) (start : Bool) :
    colourPattern.replaceFrom start t = t :=
  Pattern.replaceFrom_eq_self (fun _ ht => ht.find?_eq_none) (fun _ _ ht => ht.of_cons) start h

/-- Before a marker, a hit begins in a passage only at the star that ends it. -/
theorem Unmarked.find?_append_marker (h : Unmarked (c :: p)) (hn : c :: p ≠ ['*'])
    (hm : ColourMarker m) (start : Bool) (r : Text) :
    colourPattern.find? start (c :: (p ++ (m ++ r))) = none := by
  refine colourPattern_turns.find?_eq_none ?_ start
  rintro u v r' ⟨-, a, m', b, rfl | rfl, hm', -, rfl⟩ he
  · exact h.ne_marker (List.cons_ne_nil c p) hm hm' (s := b ++ r') (by simpa using he)
  · obtain ⟨rfl, he⟩ := List.cons.inj he
    have hp : p ≠ [] := fun hp => hn (by rw [hp])
    exact h.of_cons.ne_marker hp hm hm' (s := b ++ r') (by simpa using he)

/-- A passage and the marker after it: the star between them goes, and the one that follows. -/
theorem Unmarked.replaceFrom_append_marker (h : Unmarked p) (hm : ColourMarker m) (r : Text) :
    colourPattern.replaceFrom false (p ++ (m ++ r)) =
      dropEndStar p ++ '*' :: '*' :: colourPattern.replaceFrom false (dropStar r) := by
  have marked : ∀ {a}, IsStar a → colourPattern.replaceFrom false (a ++ (m ++ r)) =
      '*' :: '*' :: colourPattern.replaceFrom false (dropStar r) := by
    intro a ha
    obtain ⟨b, hb, hr, hrest⟩ := exists_star_append_dropStar r
    have found := find?_colourPattern_marker ha hm hb hrest false
    rw [List.append_assoc, ← hr, List.append_assoc] at found
    exact replaceFrom_of_find? found
  induction p with
  | nil => exact marked (.inl rfl)
  | cons c p ih =>
    by_cases hc : c :: p = ['*']
    · rw [hc]
      exact marked (.inr rfl)
    · rw [List.cons_append, replaceFrom_cons (h.find?_append_marker hc hm false r),
        anywhere_colourPattern.replaceFrom_eq, ih h.of_cons, dropEndStar_cons hc, List.cons_append]

theorem dropStar_append_of_head? (h : t.head? ≠ some '*') (q : Text) :
    dropStar (q ++ t) = dropStar q ++ t := by
  cases q with
  | nil =>
    obtain ⟨a, ha, ht, hs⟩ := exists_star_append_dropStar t
    rcases ha with rfl | rfl
    · exact ht.symm
    · exact absurd (by rw [ht]; rfl) h
  | cons c q =>
    by_cases hc : c = '*' <;> simp [dropStar, hc]

theorem head?_flatMap_ne_star (h : ∀ x ∈ xs, ColourMarker x.1 ∧ Unmarked x.2) :
    (xs.flatMap fun x => x.1 ++ x.2).head? ≠ some '*' := by
  cases xs with
  | nil => simp
  | cons x xs =>
    obtain ⟨c, u, he, -⟩ := (h x (by simp)).1.eq_brace_cons
    simp [he]

/-- The star that a passage begins with is gone before the one that ends it is looked for. -/
theorem replaceFrom_passages (hp : Unmarked p) (h : ∀ x ∈ xs, ColourMarker x.1 ∧ Unmarked x.2) :
    colourPattern.replaceFrom false (p ++ xs.flatMap fun x => x.1 ++ x.2) = boldPassages p xs := by
  induction xs generalizing p with
  | nil => simpa [boldPassages] using hp.replaceFrom_eq_self false
  | cons x xs ih =>
    obtain ⟨m, q⟩ := x
    obtain ⟨⟨hm, hq⟩, h⟩ := List.forall_mem_cons.mp h
    rw [List.flatMap_cons, List.append_assoc, hp.replaceFrom_append_marker hm,
      dropStar_append_of_head? (head?_flatMap_ne_star h), ih (unmarked_dropStar hq) h, boldPassages]

theorem unmarked_boldPassages (hp : Unmarked p) (h : ∀ x ∈ xs, ColourMarker x.1 ∧ Unmarked x.2) :
    Unmarked (boldPassages p xs) := by
  induction xs generalizing p with
  | nil => exact hp
  | cons x xs ih =>
    obtain ⟨⟨-, hq⟩, h⟩ := List.forall_mem_cons.mp h
    have empty : Unmarked [] := unmarked_nil
    exact (unmarked_dropEndStar hp).append_star (empty.append_star (ih (unmarked_dropStar hq) h))

/-- A text is taken apart from its end: a marker opens a passage, and any other character goes
to the passage after it. -/
theorem exists_text_eq (t : Text) : ∃ a : Coloured, a.text = t := by
  induction hn : t.length using Nat.strongRecOn generalizing t with
  | _ n ih =>
    cases hr : colour? t with
    | some r =>
      obtain ⟨m, hm, rfl⟩ := colour?_eq_some_iff.mp hr
      obtain ⟨a, rfl⟩ := ih _ (hn ▸ length_colour? hr) r rfl
      have h : ∀ x ∈ (m, a.lead) :: a.rest, ColourMarker x.1 ∧ Unmarked x.2 :=
        List.forall_mem_cons.mpr ⟨⟨hm, a.unmarked_lead⟩, a.forall_rest⟩
      exact ⟨⟨[], (m, a.lead) :: a.rest, unmarked_nil, h⟩, by simp [Coloured.text]⟩
    | none =>
      cases t with
      | nil => exact ⟨⟨[], [], unmarked_nil, by simp⟩, rfl⟩
      | cons c t =>
        obtain ⟨a, rfl⟩ := ih _ (hn ▸ Nat.lt_succ_self _) t rfl
        refine ⟨⟨c :: a.lead, a.rest, fun m hm hi => ?_, a.forall_rest⟩, rfl⟩
        rcases List.infix_cons_iff.mp hi with ⟨u, hu⟩ | hi
        · have hc : colour? (c :: a.text) = some (u ++ a.rest.flatMap fun x => x.1 ++ x.2) := by
            refine colour?_eq_some_iff.mpr ⟨m, hm, ?_⟩
            rw [← List.append_assoc, hu]
            rfl
          simp [hr] at hc
        · exact a.unmarked_lead m hm hi

end Passages

/-- Between passages without markers, every marker becomes a bold marker and takes the star on
either side of it. Every text is made of such passages, so no marker is left and the rule has
nothing more to do. -/
theorem apply_status_text :
    (∀ a : Coloured, Rule.status.apply a.text = boldPassages a.lead a.rest) ∧
    (∀ t : Text, ∃ a : Coloured, a.text = t) ∧
    (∀ t, Unmarked (Rule.status.apply t)) ∧
    ∀ t, Rule.status.apply (Rule.status.apply t) = Rule.status.apply t := by
  have applied : ∀ a : Coloured, Rule.status.apply a.text = boldPassages a.lead a.rest := by
    intro a
    show colourPattern.replace _ = _
    rw [replace, anywhere_colourPattern.replaceFrom_true, Coloured.text,
      replaceFrom_passages a.unmarked_lead a.forall_rest]
  have unmarked : ∀ t, Unmarked (Rule.status.apply t) := by
    intro t
    obtain ⟨a, rfl⟩ := exists_text_eq t
    rw [applied]
    exact unmarked_boldPassages a.unmarked_lead a.forall_rest
  exact ⟨applied, exists_text_eq, unmarked, fun t => (unmarked t).replaceFrom_eq_self true⟩

/-- A star between two markers goes with the first of them, and of two stars each takes one. -/
example : Rule.status.apply "\x7bcolor\x7d*\x7bCOLOR\x7d**\x7bcolor:#fFf\x7d*x".toList =
    "******x".toList := by cbv

end IssueMarkdown.Markup
