import IssueMarkdown.Proofs.Lines

/-! # Layouts

A line may end in a line feed, in a carriage return or in both. A layout keeps the lines of a
text and the break after each, and a text has one layout only. A pattern that knows all three
breaks replaces in every line by itself.
-/

namespace IssueMarkdown

namespace Text

/-- A line feed, a carriage return, or the two as one break. -/
inductive LineBreak where
  | lineFeed | carriageReturn | both
  deriving DecidableEq, Repr

def LineBreak.text : LineBreak → Text
  | lineFeed => ['\n']
  | carriageReturn => ['\r']
  | both => ['\r', '\n']

/-- Lines with a break after each but the last. -/
inductive Layout where
  | last (l : Text)
  | line (l : Text) (b : LineBreak) (rest : Layout)
  deriving DecidableEq, Repr

/-- No line breaks in this text. -/
def OneLine (l : Text) : Prop := ∀ c ∈ l, c ≠ '\r' ∧ c ≠ '\n'

namespace Layout

def text : Layout → Text
  | last l => l
  | line l b rest => l ++ (b.text ++ rest.text)

/-- Every line rewritten by itself. -/
def map (f : Text → Text) : Layout → Layout
  | last l => last (f l)
  | line l b rest => line (f l) b (rest.map f)

/-- One more character at the front of the first line. -/
def cons (c : Char) : Layout → Layout
  | last l => last (c :: l)
  | line l b rest => line (c :: l) b rest

/-- The lines of a text; a carriage return and the line feed after it are one break. -/
def ofText : Text → Layout
  | [] => last []
  | '\r' :: '\n' :: t => line [] .both (ofText t)
  | '\r' :: t => line [] .carriageReturn (ofText t)
  | '\n' :: t => line [] .lineFeed (ofText t)
  | c :: t => (ofText t).cons c

variable {b : LineBreak} {c : Char} {f g : Text → Text} {l t : Text} {x : Layout}

theorem text_cons (c : Char) (x : Layout) : (x.cons c).text = c :: x.text := by
  cases x <;> rfl

theorem text_ofText (t : Text) : (ofText t).text = t := by
  fun_induction ofText t with
  | case1 => rfl
  | case2 t ih => exact congrArg ('\r' :: '\n' :: ·) ih
  | case3 t _ ih => exact congrArg ('\r' :: ·) ih
  | case4 t ih => exact congrArg ('\n' :: ·) ih
  | case5 c t _ _ _ ih => rw [text_cons, ih]

theorem ofText_cons (hc : c ≠ '\r' ∧ c ≠ '\n') (t : Text) :
    ofText (c :: t) = (ofText t).cons c := by
  rw [ofText]
  · exact fun _ hr _ => hc.1 hr
  · exact hc.1
  · exact hc.2

theorem ofText_of_oneLine (hl : OneLine l) : ofText l = last l := by
  induction l with
  | nil => rfl
  | cons c l ih =>
    obtain ⟨hc, hl⟩ := List.forall_mem_cons.mp hl
    rw [ofText_cons hc, ih hl]
    rfl

theorem ofText_append_break (hl : OneLine l) (ht : b = .carriageReturn → t.head? ≠ some '\n') :
    ofText (l ++ (b.text ++ t)) = line l b (ofText t) := by
  induction l with
  | nil =>
    cases b with
    | lineFeed => rfl
    | both => rfl
    | carriageReturn =>
      show ofText ('\r' :: t) = _
      rw [ofText]
      rintro t' rfl
      exact ht rfl rfl
  | cons c l ih =>
    obtain ⟨hc, hl⟩ := List.forall_mem_cons.mp hl
    rw [List.cons_append, ofText_cons hc, ih hl]
    rfl

/-- The layout of some text: no break is in a line, and a carriage return never stands right
before a line feed, as the two would be one break. -/
inductive Proper : Layout → Prop where
  | last {l : Text} (oneLine : OneLine l) : Proper (.last l)
  | line {l : Text} {b : LineBreak} {rest : Layout} (oneLine : OneLine l)
      (apart : b = .carriageReturn → ∀ r, rest ≠ .line [] .lineFeed r) (proper : Proper rest) :
      Proper (.line l b rest)

theorem Proper.cons (h : Proper x) (hc : c ≠ '\r' ∧ c ≠ '\n') : Proper (x.cons c) := by
  cases h with
  | last oneLine => exact .last (List.forall_mem_cons.mpr ⟨hc, oneLine⟩)
  | line oneLine apart proper => exact .line (List.forall_mem_cons.mpr ⟨hc, oneLine⟩) apart proper

theorem proper_ofText (t : Text) : Proper (ofText t) := by
  fun_induction ofText t with
  | case1 => exact .last (by simp [OneLine])
  | case2 t ih => exact .line (by simp [OneLine]) (by simp) ih
  | case3 t hn ih =>
    refine .line (by simp [OneLine]) (fun _ r hr => ?_) ih
    have ht := text_ofText t
    rw [hr] at ht
    exact hn r.text ht.symm
  | case4 t ih => exact .line (by simp [OneLine]) (by simp) ih
  | case5 c t _ hr hn ih => exact ih.cons ⟨hr, hn⟩

/-- Only an empty line with a line feed after it begins with one. -/
theorem Proper.exists_of_head? (h : Proper x) (hx : x.text.head? = some '\n') :
    ∃ r, x = .line [] .lineFeed r := by
  have first : ∀ {l u : Text}, OneLine l → (l ++ u).head? = some '\n' → l = [] := by
    intro l u hl hu
    cases l with
    | nil => rfl
    | cons c l => exact absurd (Option.some.inj hu) (hl c List.mem_cons_self).2
  cases h with
  | last hl =>
    obtain rfl := first (u := []) hl (by rwa [List.append_nil])
    simp [text] at hx
  | @line l b rest hl _ _ =>
    obtain rfl := first hl hx
    cases b with
    | lineFeed => exact ⟨rest, rfl⟩
    | carriageReturn => exact absurd (Option.some.inj hx) (by decide)
    | both => exact absurd (Option.some.inj hx) (by decide)

theorem Proper.ofText_text (h : Proper x) : ofText x.text = x := by
  induction h with
  | last hl => exact ofText_of_oneLine hl
  | line hl apart proper ih =>
    rw [text, ofText_append_break hl, ih]
    intro hb hr
    obtain ⟨r, hr⟩ := proper.exists_of_head? hr
    exact apart hb r hr

/-- Lines may be rewritten as long as none of them becomes empty: a carriage return before it
and a line feed after it would become one break. -/
theorem Proper.map (h : Proper x) (oneLine : ∀ l, OneLine l → OneLine (f l))
    (eq_nil : ∀ l, f l = [] → l = []) : Proper (x.map f) := by
  induction h with
  | last hl => exact .last (oneLine _ hl)
  | @line l b rest hl apart _ ih =>
    refine .line (oneLine l hl) (fun hb r hr => ?_) ih
    cases rest with
    | last m => simp [Layout.map] at hr
    | line m b' rest =>
      obtain ⟨hm, rfl, -⟩ : f m = [] ∧ b' = .lineFeed ∧ rest.map f = r := by
        simpa [Layout.map] using hr
      exact apart hb rest (by rw [eq_nil m hm])

theorem Proper.map_congr (h : Proper x) (hfg : ∀ l, OneLine l → f l = g l) : x.map f = x.map g := by
  induction h with
  | last hl => exact congrArg Layout.last (hfg _ hl)
  | line hl _ _ ih => rw [Layout.map, Layout.map, hfg _ hl, ih]

theorem map_map (x : Layout) : (x.map f).map g = x.map fun l => g (f l) := by
  induction x with
  | last l => rfl
  | line l b rest ih => exact congrArg (line _ b) ih

end Layout

end Text

namespace Markup.Pattern

open Text

variable {p : Pattern} {x : Char}

/-- Replacement works line by line, whichever break is between the lines. -/
structure BreakLocal (p : Pattern) : Prop where
  breaksLine : ∀ x, x = '\n' ∨ x = '\r' → p.breaksLine x = true
  ignores : ∀ x t, x = '\n' ∨ x = '\r' → p.Ignores (x :: t)

theorem BreakLocal.replace_append (hp : p.BreakLocal) (hx : x = '\n' ∨ x = '\r') (s t : Text) :
    p.replace (s ++ x :: t) = p.replace s ++ x :: p.replace t := by
  rw [replace, (hp.ignores x t hx).replaceFrom_append, hp.breaksLine x hx]
  rfl

theorem BreakLocal.replace_append_break (hp : p.BreakLocal) (s : Text) (b : LineBreak) (t : Text) :
    p.replace (s ++ (b.text ++ t)) = p.replace s ++ (b.text ++ p.replace t) := by
  cases b with
  | lineFeed => exact hp.replace_append (.inl rfl) s t
  | carriageReturn => exact hp.replace_append (.inr rfl) s t
  | both =>
    have hn : p.replace ('\n' :: t) = '\n' :: p.replace t := by
      simpa [replace] using hp.replace_append (.inl rfl) [] t
    calc p.replace (s ++ '\r' :: '\n' :: t)
        = p.replace s ++ '\r' :: p.replace ('\n' :: t) := hp.replace_append (.inr rfl) s _
      _ = p.replace s ++ '\r' :: '\n' :: p.replace t := congrArg (p.replace s ++ '\r' :: ·) hn

theorem BreakLocal.replace_text (hp : p.BreakLocal) (x : Layout) :
    p.replace x.text = (x.map p.replace).text := by
  induction x with
  | last l => rfl
  | line l b rest ih =>
    rw [Layout.text, hp.replace_append_break, ih]
    rfl

end Markup.Pattern

end IssueMarkdown
