import IssueMarkdown.Proofs.CodeSpan
import IssueMarkdown.Proofs.Grammar

/-! # Lines of the grammar

A pattern makes one text of another if it does so wherever no star follows. This goes
through a line item by item, so each rule is settled by what it makes of one item.
-/

namespace IssueMarkdown.Markup

open Text Pattern

namespace Pattern

variable {p : Pattern} {c : Char} {u u' v v' w : Text}

/-- Replacement writes `v` for `u`, unless a star follows. -/
def Makes (p : Pattern) (u v : Text) : Prop :=
  ∀ t, t.head? ≠ some '*' → p.replaceFrom false (u ++ t) = v ++ p.replaceFrom false t

theorem Makes.cons (hf : ∀ t, p.find? false (c :: (u ++ t)) = none) (hc : p.breaksLine c = false)
    (hu : p.Makes u v) : p.Makes (c :: u) (c :: v) := by
  intro t ht
  rw [List.cons_append, replaceFrom_cons (hf t), hc, hu t ht, List.cons_append]

theorem Keeps.makes (hu : p.Keeps u) : p.Makes u u := fun t _ => hu t

theorem Keeps.append_makes (hw : p.Keeps w) (hu : p.Makes u v) : p.Makes (w ++ u) (w ++ v) := by
  intro t ht
  rw [List.append_assoc, hw, hu t ht, List.append_assoc]

theorem Makes.append (hu : p.Makes u v) (hu' : p.Makes u' v') (h : u'.head? ≠ some '*') :
    p.Makes (u ++ u') (v ++ v') := by
  intro t ht
  have hn : (u' ++ t).head? ≠ some '*' := by
    cases u' with
    | nil => exact ht
    | cons c u' => exact h
  rw [List.append_assoc, hu _ hn, hu' t ht, List.append_assoc]

theorem makes_unwords {α : Type} {f g : α → Text} {as : List α} (hs : p.Passes ' ')
    (h : ∀ a ∈ as, p.Makes (f a) (g a)) :
    p.Makes (unwords (as.map f)) (unwords (as.map g)) := by
  induction as with
  | nil => exact fun t _ => rfl
  | cons a as ih =>
    obtain ⟨ha, has⟩ := List.forall_mem_cons.mp h
    by_cases hn : as = []
    · subst hn
      simpa [unwords] using ha
    · have hk : p.Keeps [' '] := keeps_of_passes (by simpa using hs)
      rw [List.map_cons, List.map_cons, unwords, unwords,
        List.intercalate_cons_of_ne_nil (by simpa using hn),
        List.intercalate_cons_of_ne_nil (by simpa using hn), List.append_assoc, List.append_assoc]
      exact ha.append (hk.append_makes (ih has)) (by simp)

theorem Makes.replace_eq (hu : p.Makes u v) (hp : p.Anywhere) : p.replace u = v := by
  have h := hu [] (by simp)
  rw [List.append_nil, replaceFrom_nil, List.append_nil] at h
  exact (hp.replaceFrom_true u).trans h

end Pattern

/-! ## Items after each rule -/

variable {p : Pattern} {c : Char} {m t u : Text}

/-- Colours are bold, and a code span around the colour word is no code span any more. -/
def Item.bolded : Item → Text
  | code p => if p.IsColourWord then ['{', '*', '*', '}'] else (code p).source
  | colour _ _ p => ['*', '*'] ++ (p.text ++ ['*', '*'])
  | i => i.source

def Item.unlinked : Item → Text
  | link _ _ | mention _ => []
  | i => i.bolded

def Item.converted : Item → Text
  | code p => if p.IsColourWord then ['{', '*', '*', '}'] else (code p).rendering
  | i => i.rendering

theorem keeps_of_isPlain {s : List Char} (hp : p.PassesBut s) (hs : ∀ x ∈ s, isPlain x = false)
    (hu : ∀ c ∈ u, isPlain c) : p.Keeps u :=
  hp.keeps fun c hc => notMem_of_isPlain (hu c hc) hs

/-! ### Colours -/

theorem isStar_star (b : Bool) : IsStar (star b) := by
  cases b with
  | false => exact .inl rfl
  | true => exact .inr rfl

theorem Shade.colourMarker (s : Shade) : ColourMarker s.marker := by
  cases s with
  | unspecified => exact .plain rfl
  | short d => exact .valued rfl (.inr d.length_eq) d.hex
  | long d => exact .valued rfl (.inl d.length_eq) d.hex

theorem makes_colourMarker {a b : Text} (ha : IsStar a) (hm : ColourMarker m) (hb : IsStar b) :
    colourPattern.Makes (a ++ (m ++ b)) ['*', '*'] := by
  intro t ht
  rw [← List.append_assoc a,
    replaceFrom_of_find? (find?_colourPattern_marker ha hm hb (fun _ => ht) false)]

theorem makes_colour (s : Shade) (b : Bool) (p : Phrase) :
    colourPattern.Makes (Item.colour s b p).source (Item.colour s b p).bolded := by
  have ho : colourPattern.Makes (star b ++ s.marker) ['*', '*'] := by
    simpa using makes_colourMarker (isStar_star b) s.colourMarker (.inl rfl)
  have hc : colourPattern.Makes (Shade.unspecified.marker ++ star b) ['*', '*'] :=
    makes_colourMarker (.inl rfl) Shade.unspecified.colourMarker (isStar_star b)
  have hk : colourPattern.Keeps p.text :=
    keeps_of_isPlain passes_colourPattern (by decide) p.isPlain
  refine ho.append (hk.append_makes hc) ?_
  obtain ⟨d, t, ht, hd⟩ := p.exists_cons
  simp only [ht, List.cons_append, List.head?_cons, ne_eq, Option.some.injEq]
  rintro rfl
  exact absurd hd (by decide)

/-- The inner braces of a code span are those of a colour marker. -/
theorem makes_code_of_isColourWord {p : Phrase} (h : p.IsColourWord) :
    colourPattern.Makes (Item.code p).source ['{', '*', '*', '}'] := by
  have hm : colourPattern.Makes ('{' :: (p.text ++ ['}'])) ['*', '*'] := by
    simpa using makes_colourMarker (.inl rfl) (.plain (w := '{' :: p.text) h) (.inl rfl)
  have hb : colourPattern.Keeps ['}'] := passes_colourPattern.keeps (by decide)
  have hc := (hm.append hb.makes (by decide)).cons
    (fun t => find?_colourPattern_brace (by decide) _) rfl
  simpa [Item.source] using hc

theorem keeps_code_of_not_isColourWord {p : Phrase} (h : ¬ p.IsColourWord) :
    colourPattern.Keeps (Item.code p).source := by
  have hk : colourPattern.Keeps (p.text ++ ['}', '}']) := passes_colourPattern.keeps
    (List.forall_mem_append.mpr ⟨p.forall_notMem (by decide), by decide⟩)
  refine (hk.cons (fun t => ?_) rfl).cons (fun t => find?_colourPattern_brace (by decide) _) rfl
  simpa using find?_colourPattern_span (p.notMem rfl) (p.notMem rfl) h ('}' :: t)

theorem Target.notMem (u : Target) {s : List Char} (hs : ∀ x ∈ s, isPlain x = false)
    (ha : ∀ x ∈ s, x ∉ [':', '/', '.', '-', '_', '?', '=', '&']) : ∀ c ∈ u.text, c ∉ s := by
  intro c hc hm
  rcases u.allowed c hc with h | h
  · exact notMem_of_isPlain (by simp [isPlain, h]) hs hm
  · exact ha c hm h

theorem keeps_link (p : Phrase) (u : Target) : colourPattern.Keeps (Item.link p u).source := by
  refine passes_colourPattern.keeps ?_
  simp only [Item.source, List.forall_mem_cons, List.forall_mem_append]
  exact ⟨by decide, p.forall_notMem (by decide), by decide,
    u.notMem (by decide) (by decide), by decide⟩

theorem keeps_mention (w : Word) : colourPattern.Keeps (Item.mention w).source := by
  refine passes_colourPattern.keeps ?_
  simp only [Item.source, List.forall_mem_cons, List.forall_mem_append]
  exact ⟨by decide, by decide, w.forall_notMem (by decide),
    by decide⟩

theorem makes_bolded (i : Item) : colourPattern.Makes i.source i.bolded := by
  cases i with
  | word w => exact (keeps_of_isPlain passes_colourPattern (by decide) w.isPlain).makes
  | code p =>
    by_cases hw : p.IsColourWord
    · simpa [Item.bolded, hw] using makes_code_of_isColourWord hw
    · simpa [Item.bolded, hw] using (keeps_code_of_not_isColourWord hw).makes
  | link p u => exact (keeps_link p u).makes
  | mention w => exact (keeps_mention w).makes
  | colour s b p => exact makes_colour s b p

/-! ### Links, quotes, panels and code -/

theorem unlinked_code_of_isColourWord {p : Phrase} (h : p.IsColourWord) :
    (Item.code p).unlinked = ['{', '*', '*', '}'] :=
  if_pos h

theorem unlinked_code {p : Phrase} (h : ¬ p.IsColourWord) :
    (Item.code p).unlinked = '{' :: '{' :: (p.text ++ ['}', '}']) :=
  if_neg h

theorem mem_unlinked {i : Item} (h : c ∈ i.unlinked) : isPlain c ∨ c ∈ ['{', '}', '*'] := by
  cases i with
  | word w => exact .inl (w.isPlain c h)
  | code p =>
    by_cases hw : p.IsColourWord
    · rw [unlinked_code_of_isColourWord hw] at h
      have hs : ∀ c ∈ ['{', '*', '*', '}'], c ∈ ['{', '}', '*'] := by decide
      exact .inr (hs c h)
    · rw [unlinked_code hw] at h
      have := p.isPlain c
      grind
  | link p u => exact absurd h List.not_mem_nil
  | mention w => exact absurd h List.not_mem_nil
  | colour s b p =>
    replace h : c ∈ ['*', '*'] ++ (p.text ++ ['*', '*']) := h
    have := p.isPlain c
    grind

theorem unlinked_notMem {i : Item} {s : List Char} (h : c ∈ i.unlinked)
    (hs : ∀ x ∈ s, isPlain x = false) (ha : ∀ x ∈ s, x ∉ ['{', '}', '*']) : c ∉ s := by
  rcases mem_unlinked h with h | h
  · exact notMem_of_isPlain h hs
  · exact fun hm => ha c hm h

theorem makes_linkMarker (hm : LinkMarker m) : linkPattern.Makes m [] := by
  intro t _
  rw [replaceFrom_of_find? (find?_linkPattern_marker hm false t)]

theorem Target.isTarget (u : Target) : ∀ c ∈ u.text, isTarget c := by
  intro c hc
  have h : c ∉ [']', '\n'] := u.notMem (by decide) (by decide) c hc
  simpa [Markup.isTarget] using h

theorem makes_unlinked (i : Item) : linkPattern.Makes i.bolded i.unlinked := by
  have keeps : ∀ i : Item, linkPattern.Keeps i.unlinked := fun i =>
    passes_linkPattern.keeps fun c hc => unlinked_notMem hc (by decide) (by decide)
  cases i with
  | word w => exact (keeps (.word w)).makes
  | code p => exact (keeps (.code p)).makes
  | colour s b p => exact (keeps (.colour s b p)).makes
  | link p u =>
    refine makes_linkMarker (.link p.text_ne_nil (fun c hc => ?_) u.ne_nil u.isTarget)
    have h : c ∉ [']', '|', '\n'] := p.forall_notMem (by decide) c hc
    simpa [isLabel, and_assoc] using h
  | mention w =>
    refine makes_linkMarker (.mention (s := ':' :: w.text) (List.forall_mem_cons.mpr ⟨rfl, ?_⟩))
    intro c hc
    have h : c ∉ [']', '\n'] := w.forall_notMem (by decide) c hc
    simpa [isTarget] using h

/-- A pattern that needs a brace, and neither two of them nor a star after one, passes over
what is left of an item. -/
theorem keeps_unlinked (hp : p.PassesBut ['{', '\n', '\r'])
    (hb : ∀ c t, c ∈ ['{', '*'] → p.find? false ('{' :: c :: t) = none)
    (hs : ∀ s t, '}' ∉ s → ':' ∉ s → p.find? false ('{' :: (s ++ '}' :: '}' :: t)) = none)
    (hl : p.breaksLine '{' = false) (i : Item) : p.Keeps i.unlinked := by
  cases i with
  | word w => exact keeps_of_isPlain hp (by decide) w.isPlain
  | code q =>
    by_cases hw : q.IsColourWord
    · rw [unlinked_code_of_isColourWord hw]
      exact (hp.keeps (by decide)).cons (fun t => hb _ _ (by decide)) hl
    · rw [unlinked_code hw]
      have hk : p.Keeps (q.text ++ ['}', '}']) :=
        hp.keeps (List.forall_mem_append.mpr ⟨q.forall_notMem (by decide), by decide⟩)
      refine (hk.cons (fun t => ?_) hl).cons (fun t => hb _ _ (by decide)) hl
      simpa using hs q.text t (q.notMem rfl) (q.notMem rfl)
  | link q u => exact hp.keeps (u := []) (by simp)
  | mention w => exact hp.keeps (u := []) (by simp)
  | colour s b q =>
    refine hp.keeps (u := ['*', '*'] ++ (q.text ++ ['*', '*'])) ?_
    simp only [List.forall_mem_append]
    exact ⟨by decide, q.forall_notMem (by decide), by decide⟩

theorem keeps_unlinked_quoteClosePattern (i : Item) : quoteClosePattern.Keeps i.unlinked := by
  refine keeps_unlinked passes_quoteClosePattern (fun c t hc => ?_)
    (fun s t hb _ => find?_quoteClosePattern_span hb false t) rfl i
  refine find?_quoteClosePattern_brace ?_ false t
  rintro rfl
  exact absurd hc (by decide)

theorem keeps_unlinked_panelOpenPattern (i : Item) : panelOpenPattern.Keeps i.unlinked := by
  refine keeps_unlinked (passes_panelOpenPattern.mono (by decide)) (fun c t hc => ?_)
    (fun s t hb hc => find?_panelOpenPattern_span hb hc false ('}' :: t)) rfl i
  rcases List.mem_pair.mp hc with rfl | rfl <;>
    exact find?_panelOpenPattern_brace (by decide) false t

theorem makes_converted (i : Item) : codePattern.Makes i.unlinked i.converted := by
  cases i with
  | word w => exact (keeps_of_isPlain passes_codePattern (by decide) w.isPlain).makes
  | code p =>
    by_cases hw : p.IsColourWord
    · rw [unlinked_code_of_isColourWord hw, Item.converted, if_pos hw]
      have hk : codePattern.Keeps ['*', '*', '}'] := passes_codePattern.keeps (by decide)
      exact (hk.cons (fun t => find?_codePattern_brace (by decide) false _) rfl).makes
    · rw [unlinked_code hw, Item.converted, if_neg hw]
      intro t _
      have hf := find?_codePattern_span p.text_ne_nil (p.notMem rfl) (p.notMem rfl) false t
      simpa [Item.rendering] using replaceFrom_of_find? hf
  | link p u => exact (passes_codePattern.keeps (u := []) (by simp)).makes
  | mention w => exact (passes_codePattern.keeps (u := []) (by simp)).makes
  | colour s b p =>
    refine (passes_codePattern.keeps (u := ['*', '*'] ++ (p.text ++ ['*', '*'])) ?_).makes
    simp only [List.forall_mem_append]
    exact ⟨by decide, p.forall_notMem (by decide), by decide⟩

end IssueMarkdown.Markup
